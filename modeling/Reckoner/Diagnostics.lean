import Reckoner.Session

namespace Reckoner

inductive Severity where
  | error
  | warning
deriving DecidableEq, Repr

def Severity.name : Severity → String
  | .error => "Error"
  | .warning => "Warning"

structure LineRange where
  line : Nat
  start : Nat
  stop : Nat
deriving DecidableEq, Repr

structure Diagnostic where
  range : LineRange
  message : String
  severity : Severity
deriving DecidableEq, Repr

def wholeLine (line : Nat) (text : String) : LineRange :=
  ⟨line, 0, text.length⟩

/-- The place of a span of a text that is one line; an empty span takes one character. -/
def Span.onLine (span : Span) (line : Nat) : LineRange :=
  ⟨line, span.start.column - 1, max (span.stop.column - 1) span.start.column⟩

/-- The diagnostic of an error on a line: a warning where the line can be read, but not resolved.
An error without a message has none. -/
def Diagnostic.ofError? (line : Nat) (text : String) : ResolveError → Option Diagnostic
  | .lexical e => some ⟨⟨line, e.position.column - 1, e.position.column⟩, e.message, .error⟩
  | .grammatical (.rejected e) => some ⟨e.span.onLine line, e.message, .error⟩
  | .grammatical (.fault _) => none
  | .evaluation (.failed e) => some ⟨e.span.onLine line, e.message, .warning⟩
  | .evaluation (.program e) => some ⟨wholeLine line text, e.message, .error⟩
  | .evaluation (.malformed _) => none
  | .evaluation (.fault _) => none
  | .session _ => none

def isComment (text : String) : Bool :=
  match trimChars text.toList with
  | [] => true
  | c :: _ => c == '#'

/-- The diagnostics of lines, the first of which has the number `line`; an error without a message
ends the check. -/
def checkLines (s : Session) (line : Nat) : List String → Except ResolveError (List Diagnostic)
  | [] => .ok []
  | text :: rest =>
    if isComment text then checkLines s (line + 1) rest
    else
      match s.resolve text with
      | .ok (s, _) => checkLines s (line + 1) rest
      | .error e =>
        match Diagnostic.ofError? line text e with
        | some diagnostic => (checkLines s (line + 1) rest).map (diagnostic :: ·)
        | none => .error e

def checkDocument (source : String) : Except ResolveError (List Diagnostic) :=
  checkLines ⟨defaultPrecision, []⟩ 0 (splitLines source)

/-- A document was opened in an editor, or its text changed. -/
inductive DocumentEvent where
  | opened (uri text : String)
  | changed (uri text : String)

structure Publication where
  uri : String
  diagnostics : List Diagnostic

/-- Every event brings the whole text, which is checked afresh. -/
def DocumentEvent.publish : DocumentEvent → Except ResolveError Publication
  | .opened uri text => (checkDocument text).map (⟨uri, ·⟩)
  | .changed uri text => (checkDocument text).map (⟨uri, ·⟩)

end Reckoner
