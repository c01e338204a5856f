import Reckoner.Release
import Reckoner.Settings

namespace Reckoner

def Settings.logs (settings : Settings) (part text : String) : List String :=
  if settings.logLevel = .debug then
    [LogLevel.debug.name ++ " " ++ programName ++ "." ++ part ++ ": " ++ text ++ "\n"]
  else []

def padRight (width : Nat) (s : String) : String :=
  s ++ String.ofList (List.replicate (width - s.length) ' ')

def Token.dump (token : Token) : String :=
  "  " ++ padRight 10 token.kind.name ++ " " ++ quoted token.value ++ " @" ++
    intText token.span.start.column ++ "\n"

/-- One line for each token but the end mark. -/
def dumpTokens (tokens : List Token) : String :=
  "Tokens\n" ++ String.join
    ((tokens.filter fun token => token.kind ≠ .endOfInput).map Token.dump)

def dumpProgram (program : List Token) : String :=
  "Postfix\n  " ++ programText program ++ "\n"

def Settings.logTokens (settings : Settings) (line : String) (tokens : List Token) :
    List String :=
  settings.logs "lexer"
    ("lexed " ++ intText (tokens.length - 1 : Nat) ++ " tokens from " ++ quoted line)

def Settings.logProgram (settings : Settings) (line : String) (program : List Token) :
    List String :=
  settings.logs "parser"
    ("postfix for " ++ quoted line ++ ": " ++ " ".intercalate (program.map Token.value))

def Settings.logValue (settings : Settings) (line : String) (x : Number) : List String :=
  settings.logs "eval" (quoted line ++ " evaluated to " ++ x.describe)

def Settings.logVariable (settings : Settings) (name : String) (x : Number) : List String :=
  settings.logs "session" ("set " ++ name ++ " = " ++ x.describe)

/-- What the log tells about the evaluation of a line. -/
def Settings.traceValue (settings : Settings) (s : Session) (line : String) (e : Expression) :
    List String :=
  if settings.logLevel = .debug then
    match s.evaluate e with
    | .error _ => []
    | .ok x =>
      settings.logValue line x ++
        (e.target.map fun target => settings.logVariable target.value x).getD []
  else []

/-- What is told about a line in a session; when debugging its tokens are read once more. -/
def Settings.trace (settings : Settings) (s : Session) (line : String) : List String :=
  match tokenize line with
  | .error _ => []
  | .ok tokens =>
    let lexed := settings.logTokens line tokens
    let dump := if settings.debug then lexed ++ [dumpTokens tokens] else []
    match Expression.ofTokens line tokens with
    | .error _ => dump ++ lexed
    | .ok e =>
      let programDump := if settings.debug then [dumpProgram e.program] else []
      dump ++ lexed ++ settings.logProgram line e.program ++ programDump ++
        settings.traceValue s line e

/-- What is told about the variables that are set before the first line. -/
def Settings.traceVariables (settings : Settings) (s : Session) :
    List (String × Datum) → List String
  | [] => []
  | (name, value) :: rest =>
    match s.set name value with
    | .ok (s, x) => settings.logVariable name x ++ settings.traceVariables s rest
    | .error _ => []

end Reckoner
