import TypedBindings.Json.Basic
import TypedBindings.Text.Quoted

/-!
# Writing JSON texts

The text of a document without blanks between its tokens. A defect has no text.
-/

namespace TypedBindings.Json

mutual

/-- The text of a document, on one line. -/
def write : Json → String
  | .null => "null"
  | .bool true => "true"
  | .bool false => "false"
  | .int n => toString n
  | .real literal => literal
  | .str s => Text.quote s
  | .arr items => "[" ++ writeItems items ++ "]"
  | .obj members => "\x7b" ++ writeMembers members ++ "\x7d"
  | .defect _ => ""

/-- Items with commas between them. -/
def writeItems : List Json → String
  | [] => ""
  | [v] => v.write
  | v :: rest => v.write ++ "," ++ writeItems rest

/-- Members with commas between them, each with its name in front. -/
def writeMembers : List (String × Json) → String
  | [] => ""
  | [(k, v)] => Text.quote k ++ ":" ++ v.write
  | (k, v) :: rest => Text.quote k ++ ":" ++ v.write ++ "," ++ writeMembers rest

end

end TypedBindings.Json
