import Reckoner.Arguments.Argument

namespace Reckoner

structure Request where
  expressions : List String := []
  definitions : List String := []
  quiet : Bool := false
  precision : Option Int := none
  configuration : Option String := none
  prompt : Option String := none
  debug : Bool := false
  logLevel : Option LogLevel := none
deriving DecidableEq, Repr

/-- Why nothing is computed at all: the help or the version was asked for, or the command line is
wrong. -/
inductive Interruption where
  | help
  | version
  | usage (e : UsageError)
deriving DecidableEq, Repr

def Request.withSwitch (r : Request) : Switch → Except Interruption Request
  | .help => .error .help
  | .version => .error .version
  | .quiet => .ok { r with quiet := true }
  | .debug => .ok { r with debug := true }

/-- Expressions and definitions gather; of other values the last one counts. -/
def Request.withValue (r : Request) (p : Parameter) (value : String) :
    Except Interruption Request :=
  match p with
  | .expression => .ok { r with expressions := r.expressions ++ [value] }
  | .definition => .ok { r with definitions := r.definitions ++ [value] }
  | .configuration => .ok { r with configuration := some value }
  | .prompt => .ok { r with prompt := some value }
  | .precision =>
    match readInteger? value with
    | some n => .ok { r with precision := some n }
    | none => .error (.usage (.notInteger p value))
  | .logLevel =>
    match LogLevel.ofName? value with
    | some level => .ok { r with logLevel := some level }
    | none => .error (.usage (.notLogLevel value))

/-- Obeys the options in their order; `strays` are the arguments so far that belong to none. -/
def Request.obey (r : Request) (strays : List String) :
    List Argument → Except Interruption Request
  | [] => if strays.isEmpty then .ok r else .error (.usage (.unrecognized strays))
  | .plain text :: rest => r.obey (strays ++ [text]) rest
  | .separator :: rest => r.obey (strays ++ ["--"]) rest
  | .unknown text :: rest => r.obey (strays ++ [text]) rest
  | .option flag attached :: rest =>
    match readOption flag attached with
    | .error e => .error (.usage e)
    | .ok (switches, .complete) => do (← switches.foldlM Request.withSwitch r).obey strays rest
    | .ok (switches, .unknown text) => do
      (← switches.foldlM Request.withSwitch r).obey (strays ++ [String.ofList text]) rest
    | .ok (switches, .valued p value) => do
      let r ← switches.foldlM Request.withSwitch r
      (← r.withValue p (String.ofList value)).obey strays rest
    | .ok (switches, .awaiting p) =>
      match rest with
      | .plain value :: rest => do
        let r ← switches.foldlM Request.withSwitch r
        (← r.withValue p value).obey strays rest
      | _ => .error (.usage (.missingValue p))

def Request.read (arguments : List String) : Except Interruption Request :=
  match classifyAll arguments with
  | .error e => .error (.usage e)
  | .ok arguments => ({} : Request).obey [] arguments

end Reckoner
