namespace Reckoner

/-- A place in a source text: line and column count from one, the offset from zero. -/
structure Position where
  line : Nat
  column : Nat
  offset : Nat
deriving DecidableEq, Repr

def Position.start : Position := ⟨1, 1, 0⟩

/-- The place after a character; only a line feed starts a new line. -/
def Position.next (p : Position) (c : Char) : Position :=
  if c = '\n' then ⟨p.line + 1, 1, p.offset + 1⟩ else ⟨p.line, p.column + 1, p.offset + 1⟩

def Position.advance (p : Position) (cs : List Char) : Position :=
  cs.foldl Position.next p

/-- The part of a source text from `start` up to, and without, `stop`. -/
structure Span where
  start : Position
  stop : Position
deriving DecidableEq, Repr

end Reckoner
