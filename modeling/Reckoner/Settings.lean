import Reckoner.Arguments.Request
import Reckoner.Configuration.Document
import Reckoner.Session

namespace Reckoner

structure Settings where
  expressions : List String
  bindings : Table Datum
  precision : Nat
  quiet : Bool
  prompt : String
  debug : Bool
  logLevel : LogLevel

def defaultPrompt : String :=
  "> "

def defaultConfigurationName : String :=
  "yarer.toml"

def Request.configurationName (r : Request) : String :=
  match r.configuration with
  | some name => if name.isEmpty then defaultConfigurationName else name
  | none => defaultConfigurationName

/-- Why a run does not get as far as its first line. -/
inductive SetupError where
  | configuration (e : ConfigurationError)
  | precision (p : Int)
  | definition (text : String)
  | variable (name : String) (e : SessionError)
deriving DecidableEq

def SetupError.message? : SetupError → Option String
  | .configuration _ => none
  | .precision p => some (precisionMessage p)
  | .definition text => some ("invalid define format (expected NAME=VALUE): " ++ text)
  | .variable name e => e.message?.map fun m => "invalid value for " ++ name ++ ": " ++ m

/-- A name and a value, on the two sides of the first equals sign. -/
def readDefinition (text : String) : Except SetupError (String × String) :=
  match splitAssignment text.toList with
  | (name, some value) => .ok (String.ofList (trimChars name), String.ofList (trimChars value))
  | (_, none) => .error (.definition text)

def addDefinitions (bindings : Table Datum) : List String → Except SetupError (Table Datum)
  | [] => .ok bindings
  | text :: rest =>
    match readDefinition text with
    | .error e => .error e
    | .ok (name, value) => addDefinitions (bindings.set name (.text value)) rest

/-- A single setting of the configuration, given by its table and its key there. -/
def configured? (items : Table Item) (table key : String) : Option Item :=
  (tableItems table items).get? key

/-- The precision asked for; a configured one counts only if it is an integer. -/
def Request.chosenPrecision (r : Request) (items : Table Item) : Int :=
  match r.precision, configured? items "session" "precision" with
  | some p, _ => p
  | none, some (.value (.integer p)) => p
  | none, _ => defaultPrecision

def Request.chosenPrompt (r : Request) (items : Table Item) : String :=
  match r.prompt, configured? items "shell" "prompt" with
  | some prompt, _ => prompt
  | none, some (.value (.text prompt)) => prompt
  | none, _ => defaultPrompt

def isTrue : Option Item → Bool
  | some (.value (.boolean true)) => true
  | _ => false

/-- Debugging logs everything unless another level is asked for. -/
def Request.chosenLogLevel (r : Request) : LogLevel :=
  r.logLevel.getD (if r.debug then .debug else .warning)

def Request.settings (r : Request) (items : Table Item) : Except SetupError Settings :=
  let precision := r.chosenPrecision items
  if precision < 1 then .error (.precision precision)
  else
    let bindings := (tableItems "variables" items).map fun (name, item) => (name, item.toDatum)
    (addDefinitions bindings r.definitions).map fun bindings =>
      { expressions := r.expressions
        bindings
        precision := precision.toNat
        quiet := r.quiet || isTrue (configured? items "shell" "quiet")
        prompt := r.chosenPrompt items
        debug := r.debug
        logLevel := r.chosenLogLevel }

/-- The settings of a run whose configuration has the given text, if there is one. -/
def Settings.read (r : Request) (configuration : Option String) : Except SetupError Settings :=
  match readConfiguration (configuration.getD "") with
  | .error e => .error (.configuration e)
  | .ok items => r.settings items

def Session.define (s : Session) : List (String × Datum) → Except SetupError Session
  | [] => .ok s
  | (name, value) :: rest =>
    match s.set name value with
    | .ok (s, _) => s.define rest
    | .error e => .error (.variable name e)

def Settings.session (settings : Settings) : Except SetupError Session :=
  (⟨settings.precision, []⟩ : Session).define settings.bindings

end Reckoner
