import Reckoner.Run

namespace Reckoner

/-- Prints what a run or a shell has written since the last time. -/
def printAll (output errors : List String) : IO Unit := do
  for text in errors do (← IO.getStderr).putStr text
  for text in output do (← IO.getStdout).putStr text
  (← IO.getStderr).flush
  (← IO.getStdout).flush

def Ending.exitCode : Ending → UInt32
  | .exit code => UInt32.ofNat code
  | .unprepared _ => 1
  | .broken _ => 1

/-- The text of a file, or nothing where there is no such file. -/
def readFile? (name : String) : IO (Option String) :=
  try
    return some (← IO.FS.readFile name)
  catch _ => return none

/-- Answers lines as they are typed. -/
partial def converse (settings : Settings) (shell : Shell) : IO UInt32 := do
  let asked := shell.ask settings true
  printAll asked.output asked.errors
  let raw ← (← IO.getStdin).getLine
  if raw.isEmpty then
    let closed := Shell.close true ⟨shell.session, [], []⟩
    printAll closed.output closed.errors
    return 0
  let (shell, ending) := Shell.feed settings ⟨shell.session, [], []⟩ raw
  printAll shell.output shell.errors
  match ending with
  | some ending => return ending.exitCode
  | none => converse settings { shell with output := [], errors := [] }

def finish (run : Run) : IO UInt32 := do
  printAll run.output run.errors
  return run.ending.exitCode

def runRequest (r : Request) : IO UInt32 := do
  let configuration ← readFile? r.configurationName
  match Settings.read r configuration with
  | .error e => finish (.unprepared [] e)
  | .ok settings =>
    let stdin ← IO.getStdin
    if settings.expressions.isEmpty && (← stdin.isTty) then
      match settings.shell with
      | .error run => finish run
      | .ok shell => converse settings (shell.greet settings)
    else
      let input ← if settings.expressions.isEmpty then stdin.readToEnd else pure ""
      finish (settings.run false input)

end Reckoner

def main (arguments : List String) : IO UInt32 :=
  match Reckoner.Request.read arguments with
  | .ok r => Reckoner.runRequest r
  | .error e => Reckoner.finish e.run
