import Reckoner.Text.Blank
import Reckoner.Text.Quoted
import Reckoner.Token

namespace Reckoner

inductive LexFault where
  | unexpected (c : Char)
  | secondPoint
  | letterAfterDigits (c : Char)
deriving DecidableEq, Repr

structure LexError where
  fault : LexFault
  position : Position
deriving DecidableEq, Repr

def LexError.message (e : LexError) : String :=
  match e.fault with
  | .unexpected c => "unexpected character " ++ quoted c.toString
  | .secondPoint => "malformed number: second decimal point"
  | .letterAfterDigits c => "malformed number: unexpected " ++ quoted c.toString ++ " after digits"

/-- A token written as `raw` at `start`. -/
def Token.at (kind : TokenKind) (value raw : List Char) (start : Position) : Token :=
  ⟨kind, String.ofList value, String.ofList raw, ⟨start, start.advance raw⟩, 0⟩

section
variable (kind : TokenKind) (value raw : List Char) (start : Position)

@[simp] theorem at_kind : (Token.at kind value raw start).kind = kind := by
  rfl

@[simp] theorem at_value : (Token.at kind value raw start).value = String.ofList value := by
  rfl

@[simp] theorem at_raw : (Token.at kind value raw start).raw = String.ofList raw := by
  rfl

@[simp] theorem at_span : (Token.at kind value raw start).span = ⟨start, start.advance raw⟩ := by
  rfl

end

/-- The longest run of digits with at most one point in it, and the rest. -/
def takeNumber (seenPoint : Bool) (p : Position) :
    List Char → Except LexError (List Char × List Char)
  | [] => .ok ([], [])
  | c :: cs =>
    if isDigit c then
      (takeNumber seenPoint (p.next c) cs).map fun (word, rest) => (c :: word, rest)
    else if c = '.' then
      if seenPoint then .error ⟨.secondPoint, p⟩
      else (takeNumber true (p.next c) cs).map fun (word, rest) => (c :: word, rest)
    else .ok ([], c :: cs)

def startsWithDigit : List Char → Bool
  | [] => false
  | c :: _ => isDigit c

/-- One step of the scan of a text that does not start with a blank: its first token and what
follows it. -/
def nextToken (p : Position) (c : Char) (cs : List Char) : Except LexError (Token × List Char) :=
  if isDigit c || (c == '.' && startsWithDigit cs) then
    match takeNumber false p (c :: cs) with
    | .error e => .error e
    | .ok (word, rest) =>
      match rest with
      | d :: _ =>
        if isLetter d then .error ⟨.letterAfterDigits d, p.advance word⟩
        else .ok (.at .number word word p, rest)
      | [] => .ok (.at .number word word p, rest)
  else if isLetter c then
    let word := c :: cs.takeWhile isNameChar
    .ok (.at .identifier word word p, cs.dropWhile isNameChar)
  else
    match operatorSign? c, punctuation? c with
    | some sign, _ => .ok (.at .operator [sign] [c] p, cs)
    | none, some kind => .ok (.at kind [c] [c] p, cs)
    | none, none => .error ⟨.unexpected c, p⟩

theorem takeNumber_length {seenPoint : Bool} {p : Position} {cs word rest : List Char}
    (h : takeNumber seenPoint p cs = .ok (word, rest)) :
    word.length + rest.length = cs.length := by
  induction cs generalizing seenPoint p word with
  | nil => simp [takeNumber] at h; simp [h]
  | cons c cs ih =>
    unfold takeNumber at h
    split at h
    · cases ht : takeNumber seenPoint (p.next c) cs with
      | error e => simp [ht, Except.map] at h
      | ok r =>
        simp [ht, Except.map] at h
        have hr : takeNumber seenPoint (p.next c) cs = .ok (r.1, rest) := by rw [ht, ← h.2]
        have := ih hr
        rw [← h.1]
        simp only [List.length_cons]
        omega
    · split at h
      · split at h
        · simp at h
        · cases ht : takeNumber true (p.next c) cs with
          | error e => simp [ht, Except.map] at h
          | ok r =>
            simp [ht, Except.map] at h
            have hr : takeNumber true (p.next c) cs = .ok (r.1, rest) := by rw [ht, ← h.2]
            have := ih hr
            rw [← h.1]
            simp only [List.length_cons]
            omega
      · simp at h
        simp [h.1, ← h.2]

theorem takeNumber_shorter {p : Position} {c : Char} {cs word rest : List Char}
    (hc : isDigit c = true ∨ c = '.') (h : takeNumber false p (c :: cs) = .ok (word, rest)) :
    rest.length ≤ cs.length := by
  have hl := takeNumber_length h
  have hw : 0 < word.length := by
    unfold takeNumber at h
    split at h
    · cases ht : takeNumber false (p.next c) cs with
      | error e => simp [ht, Except.map] at h
      | ok r => simp [ht, Except.map] at h; simp [← h.1]
    next hd =>
      rw [if_pos (hc.resolve_left hd)] at h
      cases ht : takeNumber true (p.next c) cs with
      | error e => simp [ht, Except.map] at h
      | ok r => simp [ht, Except.map] at h; simp [← h.1]
  simp only [List.length_cons] at hl
  omega

theorem nextToken_shorter {p : Position} {c : Char} {cs rest : List Char} {token : Token}
    (h : nextToken p c cs = .ok (token, rest)) : rest.length ≤ cs.length := by
  unfold nextToken at h
  split at h
  next hc =>
    have hc' : isDigit c = true ∨ c = '.' := by
      simp only [Bool.or_eq_true, Bool.and_eq_true, beq_iff_eq] at hc
      exact hc.imp id And.left
    split at h
    · cases h
    next word rest' ht =>
      have := takeNumber_shorter hc' ht
      split at h
      · split at h
        · cases h
        · cases h; exact this
      · cases h; exact this
  next =>
    split at h
    · cases h; exact (List.dropWhile_sublist _).length_le
    · split at h <;> cases h <;> exact Nat.le_refl _

/-- The tokens of a text that starts at `p`. -/
def scan (p : Position) : List Char → Except LexError (List Token)
  | [] => .ok [.at .endOfInput [] [] p]
  | c :: cs =>
    if isBlank c then scan (p.next c) cs
    else
      match h : nextToken p c cs with
      | .error e => .error e
      | .ok (token, rest) =>
        have := nextToken_shorter h
        (scan token.span.stop rest).map (token :: ·)
termination_by cs => cs.length

def tokenize (source : String) : Except LexError (List Token) :=
  scan .start source.toList

end Reckoner
