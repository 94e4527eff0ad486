import TypedBindings.Text.Quoted

/-!
# Type expressions

The types of the generated sources and their text, which is always on one line.
-/

namespace TypedBindings.TypeScript

/-- A member of an object type or interface. -/
structure Member (τ : Type) where
  name : String
  isOptional : Bool
  type : τ

/-- A type expression. -/
inductive Ty where
  | named (name : String)
  | generic (name : String) (args : List Ty)
  | tuple (elements : List Ty)
  | object (members : List (Member Ty))
  | union (variants : List Ty)
  | literal (text : String)
  | array (element : Ty)
  /-- A type that is given by its text. -/
  | raw (text : String)

/-- A member that has to be present. -/
def Member.plain (name : String) (type : Ty) : Member Ty := ⟨name, false, type⟩

namespace Ty

def promise (type : Ty) : Ty := .generic "Promise" [type]

/-- The union of some types; of one type it is that type. -/
def unionOf : List Ty → Ty
  | [type] => type
  | types => .union types

/-- A type without some of its members. -/
def without (type : Ty) (keys : List String) : Ty :=
  .generic "Omit" [type, unionOf (keys.map .literal)]

def isUnion : Ty → Bool
  | .union _ => true
  | _ => false

/-- The mark behind the name of something optional. -/
def optionalMark (isOptional : Bool) : String := if isOptional then "?" else ""

mutual

/-- The text of a type. -/
def text : Ty → String
  | .named name => name
  | .generic name args => name ++ "<" ++ ", ".intercalate (texts args) ++ ">"
  | .tuple elements => "[" ++ ", ".intercalate (texts elements) ++ "]"
  | .object [] => "\x7b\x7d"
  | .object (m :: ms) => "\x7b " ++ "; ".intercalate (memberTexts (m :: ms)) ++ " \x7d"
  | .union variants => " | ".intercalate (texts variants)
  | .literal s => Text.quote s
  | .array element =>
    if element.isUnion then "(" ++ element.text ++ ")[]" else element.text ++ "[]"
  | .raw s => s

def texts : List Ty → List String
  | [] => []
  | t :: rest => t.text :: texts rest

def memberTexts : List (Member Ty) → List String
  | [] => []
  | ⟨name, isOptional, type⟩ :: rest =>
    (name ++ optionalMark isOptional ++ ": " ++ type.text) :: memberTexts rest

end

end Ty

end TypedBindings.TypeScript
