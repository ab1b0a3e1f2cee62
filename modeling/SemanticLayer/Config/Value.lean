import SemanticLayer.Number.Binary64

/-!
# Configuration values

What a configuration says, whatever format it is written in: values under names, before anything is
asked of them.
-/

namespace SemanticLayer.Config

/-- A configured value. -/
inductive Value where
  | null
  | bool (value : Bool)
  | integer (value : Int)
  | float (value : Number.Binary64)
  | text (value : String)
  | moment
  | list (items : List Value)
  | table (fields : List (String × Value))
  deriving Inhabited

namespace Value

/-- The fields of a table. -/
abbrev Fields := List (String × Value)

/-- The value under a name; one that is null is there. -/
def Fields.get? (fields : Fields) (key : String) : Option Value :=
  (fields.find? fun field => field.1 == key).map Prod.snd

end Value
end SemanticLayer.Config
