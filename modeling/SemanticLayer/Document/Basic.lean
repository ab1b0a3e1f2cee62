/-!
# Documents of values and named fields

A document is a value, a list of documents, or an object: documents under names, in the order of
their names and each name once. `insert` keeps that order.
-/

namespace SemanticLayer

/-- A document. A number is `mantissa / 10 ^ places`. -/
inductive Document where
  | null
  | bool (value : Bool)
  | number (mantissa : Int) (places : Nat)
  | string (value : String)
  | array (items : List Document)
  | object (fields : List (String × Document))

namespace Document

instance : Inhabited Document := ⟨null⟩

/-- The fields of an object. -/
abbrev Fields := List (String × Document)

/-- The document under a name. -/
def Fields.get? (fields : Fields) (key : String) : Option Document :=
  (fields.find? fun field => field.1 == key).map Prod.snd

/-- The fields with a document put under a name, in the place of one that is there. -/
def Fields.insert (key : String) (value : Document) : Fields → Fields
  | [] => [(key, value)]
  | (found, old) :: rest =>
    if key = found then (key, value) :: rest
    else if key < found then (key, value) :: (found, old) :: rest
    else (found, old) :: Fields.insert key value rest

/-- The object with the given fields; of two with one name the last counts. -/
def ofFields (fields : Fields) : Document :=
  .object (fields.foldl (fun all field => Fields.insert field.1 field.2 all) [])

/-- The object with one field. -/
def single (key : String) (value : Document) : Document :=
  .object [(key, value)]

/-- The document under a name of an object. -/
def field? (key : String) : Document → Option Document
  | .object fields => Fields.get? fields key
  | _ => none

/-- The text that a document is. -/
def text? : Document → Option String
  | .string value => some value
  | _ => none

/-- The list that a document is. -/
def items? : Document → Option (List Document)
  | .array items => some items
  | _ => none

end Document
end SemanticLayer
