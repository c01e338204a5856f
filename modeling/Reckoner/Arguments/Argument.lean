import Reckoner.Arguments.Flag

namespace Reckoner

/-- What stands in the same argument behind an option: a value after an equals sign, or the rest of
the argument after a short option. -/
inductive Attachment where
  | assigned (text : List Char)
  | glued (text : List Char)
deriving DecidableEq, Repr

inductive Argument where
  | plain (text : String)
  | separator
  | option (flag : Flag) (attached : Option Attachment)
  | unknown (text : String)
deriving DecidableEq, Repr

/-- A negative number is no option; a line feed after it does not count. -/
def looksNegative : List Char → Bool
  | '-' :: body =>
    let isNumeral := fun c => (digitValue? c).isSome
    let body := if body.getLast? = some '\n' then body.dropLast else body
    match body.span isNumeral with
    | (digits, []) => !digits.isEmpty
    | (_, '.' :: decimals) => !decimals.isEmpty && decimals.all isNumeral
    | _ => false
  | _ => false

def splitAssignment (cs : List Char) : List Char × Option (List Char) :=
  match cs.span (· ≠ '=') with
  | (head, _ :: tail) => (head, some tail)
  | (head, []) => (head, none)

/-- The options that an argument may mean which is not spelled out: a short option with something
behind it, or those whose long spelling starts as the argument does. -/
def abbreviations (second : Char) (rest : List Char) : List (String × Argument) :=
  if second = '-' then
    let (head, value) := splitAssignment ('-' :: second :: rest)
    (spellings.filter fun entry => head.isPrefixOf entry.1.toList).map fun (spelling, flag) =>
      (spelling, .option flag (value.map .assigned))
  else
    (spellings.filter fun entry => entry.1.toList = ['-', second]).map fun (spelling, flag) =>
      (spelling, .option flag (some (.glued rest)))

def classify (text : String) : Except UsageError Argument :=
  match text.toList with
  | '-' :: second :: rest =>
    match findFlag? text with
    | some flag => .ok (.option flag none)
    | none =>
      let (head, value) := splitAssignment ('-' :: second :: rest)
      match findFlag? (String.ofList head), value with
      | some flag, some value => .ok (.option flag (some (.assigned value)))
      | _, _ =>
        match abbreviations second rest with
        | [(_, argument)] => .ok argument
        | [] =>
          if looksNegative text.toList || text.toList.contains ' ' then .ok (.plain text)
          else .ok (.unknown text)
        | candidates => .error (.ambiguous text (candidates.map (·.1)))
  | _ => .ok (.plain text)

def classifyAll : List String → Except UsageError (List Argument)
  | [] => .ok []
  | text :: rest =>
    if text = "--" then .ok (.separator :: rest.map .plain)
    else do
      let argument ← classify text
      return argument :: (← classifyAll rest)

/-- How the options of one argument end: with a switch, with a parameter and its value, with a
parameter whose value is the next argument, or with characters that are no option. -/
inductive ClusterEnd where
  | complete
  | valued (p : Parameter) (value : List Char)
  | awaiting (p : Parameter)
  | unknown (text : List Char)
deriving DecidableEq, Repr

def readCluster (s : Switch) (text : List Char) :
    Except UsageError (List Switch × ClusterEnd) :=
  match text with
  | [] => .ok ([s], .complete)
  | c :: rest =>
    if c = '-' then .error (.ignoredValue s (String.ofList (c :: rest)))
    else
      match findFlag? (String.ofList ['-', c]), rest with
      | none, _ => .ok ([s], .unknown ('-' :: c :: rest))
      | some (.parameter p), [] => .ok ([s], .awaiting p)
      | some (.parameter p), '=' :: value => .ok ([s], .valued p value)
      | some (.parameter p), value => .ok ([s], .valued p value)
      | some (.switch next), '=' :: value => .error (.ignoredValue next (String.ofList value))
      | some (.switch next), rest =>
        (readCluster next rest).map fun (switches, ending) => (s :: switches, ending)

def readOption (flag : Flag) (attached : Option Attachment) :
    Except UsageError (List Switch × ClusterEnd) :=
  match flag, attached with
  | .parameter p, none => .ok ([], .awaiting p)
  | .parameter p, some (.assigned value) => .ok ([], .valued p value)
  | .parameter p, some (.glued value) => .ok ([], .valued p value)
  | .switch s, none => .ok ([s], .complete)
  | .switch s, some (.assigned value) => .error (.ignoredValue s (String.ofList value))
  | .switch s, some (.glued rest) => readCluster s rest

end Reckoner
