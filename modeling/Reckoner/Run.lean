import Reckoner.Shell

namespace Reckoner

def banner : List String :=
  ["Yarer v" ++ programVersion ++ " - Yet Another RPN Expression Resolver.\n",
   "Type 'quit' to exit.\n"]

def Shell.greet (settings : Settings) (shell : Shell) : Shell :=
  if settings.quiet then shell else shell.tell banner

/-- What a run wrote, and how it ended. -/
structure Run where
  output : List String
  errors : List String
  ending : Ending
deriving DecidableEq

def Run.ofShell : Shell × Ending → Run
  | (shell, ending) => ⟨shell.output, shell.errors, ending⟩

def Run.unprepared (told : List String) (e : SetupError) : Run :=
  match e.message? with
  | some message => ⟨[], told ++ ["error: " ++ message ++ "\n"], .exit 2⟩
  | none => ⟨[], told, .unprepared e⟩

/-- The shell of a run at its start, unless one of its variables is refused. -/
def Settings.shell (settings : Settings) : Except Run Shell :=
  let told := settings.traceVariables ⟨settings.precision, []⟩ settings.bindings
  match settings.session with
  | .ok session => .ok ⟨session, [], told⟩
  | .error e => .error (Run.unprepared told e)

def Settings.run (settings : Settings) (atTerminal : Bool) (input : String) : Run :=
  match settings.shell with
  | .error run => run
  | .ok shell =>
    if settings.expressions.isEmpty then
      .ofShell ((shell.greet settings).interact settings atTerminal (streamLines input))
    else .ofShell (shell.batch settings settings.expressions)

/-- A whole run, given the text of its configuration and of its input. -/
def Request.run (r : Request) (configuration : Option String) (atTerminal : Bool)
    (input : String) : Run :=
  match Settings.read r configuration with
  | .ok settings => settings.run atTerminal input
  | .error e => .unprepared [] e

def helpText : String :=
  "usage: " ++ programName ++ " [options]\n" ++
    String.join (spellings.map fun entry => "  " ++ entry.1 ++ "\n")

def Interruption.run : Interruption → Run
  | .help => ⟨[helpText], [], .exit 0⟩
  | .version => ⟨[programName ++ " " ++ programVersion ++ "\n"], [], .exit 0⟩
  | .usage e => ⟨[], [programName ++ ": error: " ++ e.message ++ "\n"], .exit 2⟩

end Reckoner
