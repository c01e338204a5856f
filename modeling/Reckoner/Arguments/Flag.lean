import Reckoner.Text.Digit
import Reckoner.Text.Quoted

namespace Reckoner

inductive LogLevel where
  | debug
  | info
  | warning
  | error
deriving DecidableEq, Repr

def LogLevel.all : List LogLevel :=
  [.debug, .info, .warning, .error]

def LogLevel.name : LogLevel → String
  | .debug => "DEBUG"
  | .info => "INFO"
  | .warning => "WARNING"
  | .error => "ERROR"

def LogLevel.ofName? (name : String) : Option LogLevel :=
  LogLevel.all.find? fun level => level.name == name

/-- Options without a value. -/
inductive Switch where
  | help
  | quiet
  | debug
  | version
deriving DecidableEq, Repr

/-- Options with a value. -/
inductive Parameter where
  | expression
  | definition
  | precision
  | configuration
  | prompt
  | logLevel
deriving DecidableEq, Repr

inductive Flag where
  | switch (s : Switch)
  | parameter (p : Parameter)
deriving DecidableEq, Repr

/-- All spellings, in the order in which an ambiguous one is explained. -/
def spellings : List (String × Flag) :=
  [("-h", .switch .help), ("--help", .switch .help),
   ("-e", .parameter .expression), ("--expr", .parameter .expression),
   ("-D", .parameter .definition), ("--define", .parameter .definition),
   ("-q", .switch .quiet), ("--quiet", .switch .quiet),
   ("--precision", .parameter .precision),
   ("--config", .parameter .configuration),
   ("--prompt", .parameter .prompt),
   ("--debug", .switch .debug),
   ("--log-level", .parameter .logLevel),
   ("--version", .switch .version)]

def findFlag? (spelling : String) : Option Flag :=
  (spellings.find? fun entry => entry.1 == spelling).map (·.2)

/-- All spellings of an option. -/
def Flag.label (flag : Flag) : String :=
  "/".intercalate ((spellings.filter fun entry => entry.2 = flag).map (·.1))

inductive UsageError where
  | ambiguous (text : String) (candidates : List String)
  | missingValue (p : Parameter)
  | ignoredValue (s : Switch) (text : String)
  | notInteger (p : Parameter) (text : String)
  | notLogLevel (text : String)
  | unrecognized (texts : List String)
deriving DecidableEq, Repr

def aboutFlag (flag : Flag) (problem : String) : String :=
  "argument " ++ flag.label ++ ": " ++ problem

def UsageError.message : UsageError → String
  | .ambiguous text candidates =>
    "ambiguous option: " ++ text ++ " could match " ++ ", ".intercalate candidates
  | .missingValue p => aboutFlag (.parameter p) "expected one argument"
  | .ignoredValue s text => aboutFlag (.switch s) ("ignored explicit argument " ++ quoted text)
  | .notInteger p text => aboutFlag (.parameter p) ("invalid int value: " ++ quoted text)
  | .notLogLevel text =>
    aboutFlag (.parameter .logLevel) ("invalid choice: " ++ quoted text ++ " (choose from " ++
      ", ".intercalate (LogLevel.all.map fun level => quoted level.name) ++ ")")
  | .unrecognized texts => "unrecognized arguments: " ++ " ".intercalate texts

end Reckoner
