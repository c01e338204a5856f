import Reckoner.Evaluation

namespace Reckoner

def defaultSourceName : String :=
  "<expr>"

/-- Takes line feeds, and then carriage returns, off the end of a line. -/
def dropLineEnd (line : List Char) : List Char :=
  ((line.reverse.dropWhile (· = '\n')).dropWhile (· = '\r')).reverse

/-- The line of a source with a number counted from one; empty where there is none. -/
def sourceLine (source : String) (line : Nat) : List Char :=
  if line = 0 then [] else dropLineEnd ((linesWithBreaks source)[line - 1]?.getD [])

/-- How many carets underline a span: its length where it ends on its first line, and else the rest
of that line. -/
def caretCount (shown : List Char) (span : Span) : Nat :=
  if span.stop.line = span.start.line then max 1 (span.stop.column - span.start.column)
  else max 1 (shown.length + 1 - span.start.column)

def showInSource (message sourceName source : String) (span : Span) : String :=
  let shown := sourceLine source span.start.line
  let number := natChars span.start.line
  let margin := String.ofList (List.replicate (number.length + 1) ' ')
  let underline := List.replicate (span.start.column - 1) ' ' ++
    List.replicate (caretCount shown span) '^'
  "\n".intercalate
    ["error: " ++ message,
     margin ++ "--> " ++ sourceName ++ ":" ++ intText span.start.line ++ ":" ++
       intText span.start.column,
     margin ++ "|",
     String.ofList number ++ " | " ++ String.ofList shown,
     margin ++ "| " ++ String.ofList underline]

def LexError.span (e : LexError) : Span :=
  ⟨e.position, ⟨e.position.line, e.position.column + 1, e.position.offset + 1⟩⟩

def LexError.report (e : LexError) (sourceName source : String) : String :=
  showInSource e.message sourceName source e.span

def ParseError.report (e : ParseError) (sourceName source : String) : String :=
  showInSource e.message sourceName source e.span

def EvalError.report (e : EvalError) (sourceName source : String) : String :=
  showInSource e.message sourceName source e.span

def bareReport (message : String) : String :=
  "error: " ++ message

def ProgramFault.report (e : ProgramFault) : String :=
  "internal error: " ++ e.message

end Reckoner
