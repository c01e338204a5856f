import Reckoner.Trace

namespace Reckoner

def Session.answer (s : Session) (line : String) : Except ResolveError (Session × String) :=
  match Expression.parse line with
  | .error e => .error e.toResolveError
  | .ok e =>
    (s.run e).map fun (s, x) =>
      (s, match e.target with
        | none => x.toText
        | some target => target.value ++ " = " ++ x.toText)

structure Shell where
  session : Session
  output : List String
  errors : List String

def Shell.write (shell : Shell) (text : String) : Shell :=
  { shell with output := shell.output ++ [text] }

def Shell.tell (shell : Shell) (texts : List String) : Shell :=
  { shell with errors := shell.errors ++ texts }

inductive Verdict where
  | answered
  | refused
  | broken (e : ResolveError)
deriving DecidableEq

def Shell.line (settings : Settings) (shell : Shell) (line : String) : Shell × Verdict :=
  let told := shell.tell (settings.trace shell.session line)
  match shell.session.answer line with
  | .ok (s, text) => ({ told with session := s }.write (text ++ "\n"), .answered)
  | .error e =>
    match e.message? with
    | some message => (told.tell ["Error: " ++ message ++ "\n"], .refused)
    | none => (told, .broken e)

/-- How a run ends: with an exit code, or with an error that has no message. -/
inductive Ending where
  | exit (code : Nat)
  | unprepared (e : SetupError)
  | broken (e : ResolveError)
deriving DecidableEq

/-- Answers expressions up to the first one without an answer. -/
def Shell.batch (settings : Settings) (shell : Shell) : List String → Shell × Ending
  | [] => (shell, .exit 0)
  | line :: rest =>
    match shell.line settings line with
    | (shell, .answered) => shell.batch settings rest
    | (shell, .refused) => (shell, .exit 1)
    | (shell, .broken e) => (shell, .broken e)

def exitCommands : List String :=
  ["quit", "exit"]

def isExitCommand (line : String) : Bool :=
  exitCommands.contains (String.ofList (line.toList.map Char.toLower))

/-- Answers a line of the interactive shell; without an ending the shell goes on. -/
def Shell.feed (settings : Settings) (shell : Shell) (raw : String) : Shell × Option Ending :=
  let line := trim raw
  if line.isEmpty then (shell, none)
  else if isExitCommand line then (shell, some (.exit 0))
  else
    match shell.line settings line with
    | (shell, .broken e) => (shell, some (.broken e))
    | (shell, _) => (shell, none)

/-- At a terminal a prompt stands before each line. -/
def Shell.ask (settings : Settings) (atTerminal : Bool) (shell : Shell) : Shell :=
  if atTerminal then shell.write settings.prompt else shell

/-- The end of the input ends the shell, as the command would that a terminal then shows. -/
def Shell.close (atTerminal : Bool) (shell : Shell) : Shell :=
  if atTerminal then shell.tell ["quit\n"] else shell

def Shell.interact (settings : Settings) (atTerminal : Bool) (shell : Shell) :
    List String → Shell × Ending
  | [] => ((shell.ask settings atTerminal).close atTerminal, .exit 0)
  | raw :: rest =>
    match (shell.ask settings atTerminal).feed settings raw with
    | (shell, some ending) => (shell, ending)
    | (shell, none) => shell.interact settings atTerminal rest

end Reckoner
