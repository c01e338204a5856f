import Reckoner.Datum
import Reckoner.Evaluation
import Reckoner.Table

namespace Reckoner

def defaultPrecision : Nat :=
  28

def maxPrecision : Nat :=
  999999999999999999

structure Session where
  precision : Nat
  bindings : Table Number

inductive SessionError where
  | invalidPrecision (p : Int)
  | invalidName (name : String)
  | invalidValue (e : DatumError)
deriving DecidableEq

def precisionMessage (p : Int) : String :=
  "precision must be positive, got " ++ intText p

/-- The message of a refused name, value or precision, where it has one of its own. -/
def SessionError.message? : SessionError → Option String
  | .invalidPrecision p => some (precisionMessage p)
  | .invalidName name => some ("invalid variable name: " ++ quoted name)
  | .invalidValue e => e.message?

/-- A name starts with a letter and goes on with letters, digits and low lines. -/
def isName (name : String) : Bool :=
  match name.toList with
  | [] => false
  | c :: cs => isLetter c && (c :: cs).all isNameChar

def Session.set (s : Session) (name : String) (value : Datum) :
    Except SessionError (Session × Number) :=
  if isName name then
    match Number.ofDatum value with
    | .ok x => .ok ({ s with bindings := s.bindings.set name x }, x)
    | .error e => .error (.invalidValue e)
  else .error (.invalidName name)

def Session.setAll (s : Session) : List (String × Datum) → Except SessionError Session
  | [] => .ok s
  | (name, value) :: rest =>
    match s.set name value with
    | .ok (s, _) => s.setAll rest
    | .error e => .error e

def Session.create (precision : Int) (bindings : List (String × Datum)) :
    Except SessionError Session :=
  if precision < 1 then .error (.invalidPrecision precision)
  else Session.setAll ⟨precision.toNat, []⟩ bindings

def Session.get? (s : Session) (name : String) : Option Number :=
  s.bindings.get? name

def Session.has (s : Session) (name : String) : Bool :=
  (s.get? name).isSome

def Session.unset (s : Session) (name : String) : Except Fault Session :=
  if s.has name then .ok { s with bindings := s.bindings.erase name }
  else .error .unboundName

inductive ResolveError where
  | lexical (e : LexError)
  | grammatical (e : ConversionError)
  | evaluation (e : EvaluationError)
  | session (e : SessionError)
deriving DecidableEq

/-- The message of an error that a text or its values cause; any other ends whatever runs. -/
def ResolveError.message? : ResolveError → Option String
  | .lexical e => some e.message
  | .grammatical (.rejected e) => some e.message
  | .grammatical (.fault _) => none
  | .evaluation (.failed e) => some e.message
  | .evaluation (.program e) => some e.message
  | .evaluation (.malformed _) => none
  | .evaluation (.fault _) => none
  | .session _ => none

def SyntaxError.toResolveError : SyntaxError → ResolveError
  | .lexical e => .lexical e
  | .grammatical e => .grammatical e

def Session.environment (s : Session) : Environment :=
  ⟨s.precision, s.get?⟩

/-- The value of a processed expression with the variables as they are, before any assignment. -/
def Session.evaluate (s : Session) (expression : Expression) : Except ResolveError Number :=
  if maxPrecision < s.precision then
    if s.precision < twoTo 63 then .error (.evaluation (.fault .precisionTooLarge))
    else .error (.evaluation (.fault .precisionTooWide))
  else (s.environment.evaluate expression.program).mapError .evaluation

def Session.assign (s : Session) (expression : Expression) (value : Number) :
    Except ResolveError Session :=
  match expression.target with
  | none => .ok s
  | some target =>
    match s.set target.value (.number value) with
    | .ok (s, _) => .ok s
    | .error e => .error (.session e)

/-- Resolves a processed expression: its value, and the session after the assignment, if any. -/
def Session.run (s : Session) (expression : Expression) :
    Except ResolveError (Session × Number) :=
  match s.evaluate expression with
  | .error e => .error e
  | .ok value =>
    match s.assign expression value with
    | .error e => .error e
    | .ok s => .ok (s, value)

def Session.resolve (s : Session) (source : String) : Except ResolveError (Session × Number) :=
  match Expression.parse source with
  | .error e => .error e.toResolveError
  | .ok expression => s.run expression

def resolve (source : String) : Except ResolveError Number :=
  ((⟨defaultPrecision, []⟩ : Session).resolve source).map (·.2)

def Expression.describe (e : Expression) : String :=
  "Resolver(" ++ quoted e.source ++ ", postfix=" ++ quoted (programText e.program) ++ ")"

end Reckoner
