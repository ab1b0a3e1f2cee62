import SemanticLayer.Document.Basic
import SemanticLayer.Number.Integer
import SemanticLayer.Text.Parts

/-!
# Positions in documents

A pointer is a list of steps from the root of a document, each the name of a field or the index of
an item. Main operations: the document at a pointer, a change of it, and the pointers of every field
of one name in the order of the document, as steps (`findBelow`) and as texts (`findWithin`).
-/

namespace SemanticLayer.Document

/-- The steps from the root to a position. -/
abbrev Pointer := List String

namespace Pointer

/-- A step as it is written: the tilde and the slash are escaped. -/
def escape (step : String) : String :=
  String.ofList <|
    Text.replaceChar '/' ['~', '1'] (Text.replaceChar '~' ['~', '0'] step.toList)

/-- The pointer as text, a slash in front of every step. -/
def text (pointer : Pointer) : String :=
  String.join (pointer.map fun step => "/" ++ escape step)

/-- Takes escapes of one kind out of a text. -/
def unescape (mark : Char) (c : Char) : List Char → List Char
  | '~' :: d :: rest =>
    if d = mark then c :: unescape mark c rest else '~' :: unescape mark c (d :: rest)
  | d :: rest => d :: unescape mark c rest
  | [] => []

/-- The pointer that a text writes: no step, or a slash in front of every step. -/
def ofText? (text : String) : Option Pointer :=
  match text.toList with
  | [] => some []
  | '/' :: rest =>
    some <| (rest.splitOn '/').map fun step =>
      String.ofList (unescape '0' '~' (unescape '1' '/' step))
  | _ => none

/-- The index that a step names: digits without a sign, and no zero in front of others. -/
def index? (step : String) : Option Nat :=
  match step.toList with
  | '0' :: _ :: _ => none
  | digits => Number.natural? digits

end Pointer

/-- The document one step further down. -/
def child? (step : String) : Document → Option Document
  | .object fields => Fields.get? fields step
  | .array items => (Pointer.index? step).bind fun i => items[i]?
  | _ => none

/-- The document at a pointer. -/
def at? (document : Document) : Pointer → Option Document
  | [] => some document
  | step :: rest => (document.child? step).bind fun child => child.at? rest

/-- The document at the pointer that a text writes. -/
def resolve? (document : Document) (text : String) : Option Document :=
  (Pointer.ofText? text).bind document.at?

/-- The fields with the document under a name changed. -/
def changeField (step : String) (change : Document → Document) (fields : Fields) : Fields :=
  fields.map fun field => if field.1 == step then (field.1, change field.2) else field

/-- The document with the document at a pointer changed; itself, where the pointer leads
nowhere. -/
def changeAt (change : Document → Document) : Pointer → Document → Document
  | [], document => change document
  | step :: rest, .object fields => .object (changeField step (changeAt change rest) fields)
  | step :: rest, .array items =>
    match Pointer.index? step with
    | some i => .array (items.modify i (changeAt change rest))
    | none => .array items
  | _ :: _, document => document

mutual

/-- The pointers to every field called `key`, in the order of the document, fields before what they
hold. What lies in a field called `stop` is not searched. -/
def find (key : String) (stop : Option String) : Document → List Pointer
  | .object fields => findInFields key stop fields
  | .array items => findInItems key stop 0 items
  | _ => []

/-- The pointers to every field called `key` in some fields. -/
def findInFields (key : String) (stop : Option String) : List (String × Document) → List Pointer
  | [] => []
  | (name, value) :: rest =>
    (if name = key then [[name]] else []) ++
      (if stop = some name then [] else (find key stop value).map (name :: ·)) ++
        findInFields key stop rest

/-- The pointers to every field called `key` in some items, the first of which has index `i`. -/
def findInItems (key : String) (stop : Option String) (i : Nat) : List Document → List Pointer
  | [] => []
  | item :: rest =>
    (find key stop item).map (String.ofList (Number.natText i) :: ·) ++
      findInItems key stop (i + 1) rest

end

/-- The pointers to every field called `key` below a pointer. -/
def findBelow (document : Document) (key : String) (base : Pointer) (stop : Option String) :
    List Pointer :=
  match document.at? base with
  | some start => (find key stop start).map (base ++ ·)
  | none => []

/-! ## Searches by text -/

mutual

/-- The texts of the pointers to every field called `key` of a document at `path`, each with that
of the object that holds it. They are listed as by `find`. -/
def walk (key : String) (stop : Option String) (path : String) : Document → List (String × String)
  | .object fields => walkFields key stop path fields
  | .array items => walkItems key stop path 0 items
  | _ => []

/-- The texts of the pointers to every field called `key` in some fields of an object at `path`. -/
def walkFields (key : String) (stop : Option String) (path : String) :
    List (String × Document) → List (String × String)
  | [] => []
  | (name, value) :: rest =>
    let below := path ++ "/" ++ Pointer.escape name
    (if name = key then [(below, path)] else []) ++
      (if stop = some name then [] else walk key stop below value) ++
        walkFields key stop path rest

/-- The texts of the pointers to every field called `key` in some items of an array at `path`, the
first of which has index `i`. -/
def walkItems (key : String) (stop : Option String) (path : String) (i : Nat) :
    List Document → List (String × String)
  | [] => []
  | item :: rest =>
    walk key stop (path ++ "/" ++ String.ofList (Number.natText i)) item ++
      walkItems key stop path (i + 1) rest

end

/-- The texts of the pointers to every field called `key` below the position that a text writes,
each with that of the object that holds it. -/
def findWithin (document : Document) (key base : String) (stop : Option String) :
    List (String × String) :=
  match document.resolve? base with
  | some start => walk key stop base start
  | none => []

end SemanticLayer.Document
