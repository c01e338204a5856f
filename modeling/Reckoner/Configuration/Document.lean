import Reckoner.Configuration.Value
import Reckoner.Table

namespace Reckoner

inductive ConfigurationLine where
  | blank
  | header (path : List String)
  | pair (key : String) (value : Datum)

/-- Nothing is left of a line but a comment. -/
def isLineEnd (cs : List Char) : Bool :=
  match dropGap cs with
  | [] => true
  | '#' :: comment => !comment.any isForbidden
  | _ => false

theorem dropGap_length (cs : List Char) : (dropGap cs).length ≤ cs.length :=
  (List.dropWhile_sublist isGap).length_le

theorem afterKey_length {cs found rest : List Char} {key : String} {c : Char}
    (h : takeKey (dropGap cs) = some (key, found)) (hr : dropGap found = c :: rest) :
    rest.length < cs.length := by
  have h1 := takeKey_length h
  have h2 := dropGap_length cs
  have h3 := dropGap_length found
  rw [hr, List.length_cons] at h3
  omega

def takePath (cs : List Char) : Option (List String × List Char) :=
  match h : takeKey (dropGap cs) with
  | none => none
  | some (key, found) =>
    match hr : dropGap found with
    | ']' :: rest => some ([key], rest)
    | '.' :: rest =>
      have := afterKey_length h hr
      (takePath rest).map fun (keys, rest) => (key :: keys, rest)
    | _ => none
termination_by cs.length

def ConfigurationLine.read (cs : List Char) : Except ConfigurationError ConfigurationLine :=
  if isLineEnd cs then .ok .blank
  else
    match dropGap cs with
    | '[' :: cs =>
      match takePath cs with
      | some (path, rest) => if isLineEnd rest then .ok (.header path) else .error .malformed
      | none => .error .malformed
    | cs =>
      match takeKey cs with
      | none => .error .malformed
      | some (key, rest) =>
        match dropGap rest with
        | '=' :: rest =>
          match takeValue (dropGap rest) with
          | .ok (value, rest) => if isLineEnd rest then .ok (.pair key value) else .error .malformed
          | .error e => .error e
        | _ => .error .malformed

/-- What a key stands for: a value, or a table, which is declared once its own header was read. -/
inductive Item where
  | value (d : Datum)
  | table (declared : Bool) (items : List (String × Item))

/-- Opens the table that a header names; the tables on the way to it need no header. -/
def declare : List String → Table Item → Option (Table Item)
  | [], items => some items
  | [name], items =>
    match items.get? name with
    | none => some (items.set name (.table true []))
    | some (.table false inner) => some (items.set name (.table true inner))
    | some _ => none
  | name :: next :: path, items =>
    match items.get? name with
    | none => (declare (next :: path) []).map fun inner => items.set name (.table false inner)
    | some (.table declared inner) =>
      (declare (next :: path) inner).map fun inner => items.set name (.table declared inner)
    | some (.value _) => none

def assign (key : String) (value : Datum) : List String → Table Item → Option (Table Item)
  | [], items => if (items.get? key).isSome then none else some (items.set key (.value value))
  | name :: path, items =>
    match items.get? name with
    | some (.table declared inner) =>
      (assign key value path inner).map fun inner => items.set name (.table declared inner)
    | _ => none

/-- A configuration read so far, and the way to the table that the next pair belongs to. -/
structure Document where
  items : Table Item
  path : List String

def Document.extend (document : Document) : ConfigurationLine → Option Document
  | .blank => some document
  | .header path => (declare path document.items).map fun items => ⟨items, path⟩
  | .pair key value =>
    (assign key value document.path document.items).map fun items => { document with items }

def Document.step (document : Document) (line : List Char) :
    Except ConfigurationError Document :=
  match ConfigurationLine.read line with
  | .error e => .error e
  | .ok line =>
    match document.extend line with
    | some document => .ok document
    | none => .error .malformed

/-- Lines end at line feeds, which a carriage return may precede. -/
def configurationLines : List Char → List (List Char)
  | [] => [[]]
  | '\r' :: '\n' :: rest => [] :: configurationLines rest
  | c :: rest =>
    if c = '\n' then [] :: configurationLines rest
    else
      match configurationLines rest with
      | [] => [[c]]
      | line :: lines => (c :: line) :: lines

def readConfiguration (text : String) : Except ConfigurationError (Table Item) :=
  ((configurationLines text.toList).foldlM Document.step ⟨[], []⟩).map Document.items

def tableItems (name : String) (items : Table Item) : Table Item :=
  match items.get? name with
  | some (.table _ inner) => inner
  | _ => []

/-- An item as a value; a table in the place of a value is not a number. -/
def Item.toDatum : Item → Datum
  | .value d => d
  | .table _ _ => .foreign "dict"

end Reckoner
