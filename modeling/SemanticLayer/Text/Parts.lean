/-!
# Parts of dotted texts

Names of columns and nodes are written as parts with dots between them.
-/

namespace SemanticLayer.Text

/-- The characters before and after the first `mark`. -/
def splitFirst? (mark : Char) : List Char → Option (List Char × List Char)
  | [] => none
  | c :: rest =>
    if c = mark then some ([], rest)
    else (splitFirst? mark rest).map fun (before, after) => (c :: before, after)

/-- The characters before and after the last `mark`. -/
def splitLast? (mark : Char) : List Char → Option (List Char × List Char)
  | [] => none
  | c :: rest =>
    match splitLast? mark rest with
    | some (before, after) => some (c :: before, after)
    | none => if c = mark then some ([], rest) else none

/-- The text before and after the last dot. -/
def splitLastDot? (text : String) : Option (String × String) :=
  (splitLast? '.' text.toList).map fun (before, after) =>
    (String.ofList before, String.ofList after)

/-- The parts with dots between them. -/
def dotted (parts : List String) : String :=
  ".".intercalate parts

/-- Every `old` written as `new`. -/
def replaceChar (old : Char) (new : List Char) (chars : List Char) : List Char :=
  chars.flatMap fun c => if c = old then new else [c]

end SemanticLayer.Text
