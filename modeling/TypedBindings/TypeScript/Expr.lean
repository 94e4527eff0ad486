import TypedBindings.TypeScript.Ty

/-!
# Expressions and statements
-/

namespace TypedBindings.TypeScript

/-- A parameter of a function. -/
structure Param where
  name : String
  isOptional : Bool := false
  type : Option Ty := none

/-- The part of a variable's declaration in front of its value. -/
structure Declarator where
  name : String
  isExported : Bool := false
  isLet : Bool := false
  type : Option Ty := none

/-- The part of an arrow function in front of its body. -/
structure ArrowHead where
  isAsync : Bool := false
  params : List Param
  returns : Option Ty := none

inductive Operator where
  | assign
  | strictEq
  | greater
  | or
  | add
deriving DecidableEq, Repr

def Operator.text : Operator → String
  | .assign => "="
  | .strictEq => "==="
  | .greater => ">"
  | .or => "||"
  | .add => "+"

/-- An entry of an object literal. -/
inductive Entry (ε : Type) where
  | field (key : String) (value : ε)
  | spread (value : ε)

mutual

/-- An expression. -/
inductive Expr where
  /-- A name, or a dotted path of names. -/
  | ident (path : String)
  | str (text : String)
  /-- A big integer, by its digits. -/
  | bigInt (digits : String)
  | bool (value : Bool)
  | num (value : Int)
  | undefined
  | array (elements : List Expr)
  | object (entries : List (Entry Expr))
  | call (callee : Expr) (typeArgs : List Ty) (args : List Expr)
  | construct (className : String) (typeArgs : List Ty) (args : List Expr)
  | member (target : Expr) (name : String)
  | index (target key : Expr)
  | arrow (head : ArrowHead) (body : Expr)
  | arrowBlock (head : ArrowHead) (body : List Stmt)
  | await (value : Expr)
  | cast (value : Expr) (type : Ty)
  | cond (test yes no : Expr)
  | binary (left : Expr) (op : Operator) (right : Expr)
  | paren (inner : Expr)

/-- A statement. -/
inductive Stmt where
  | ret (value : Expr)
  | expr (value : Expr)
  | declare (declarator : Declarator) (value : Expr)
  | branch (test : Expr) (yes no : List Stmt)
  | throw (value : Expr)

end

namespace Expr

/-- Calls a function by its path. -/
def callNamed (path : String) (args : List Expr) : Expr := .call (.ident path) [] args

/-- Calls a method of a value. -/
def callMethod (target : Expr) (name : String) (args : List Expr) : Expr :=
  .call (.member target name) [] args

/-- An object literal of named fields. -/
def record (fields : List (String × Expr)) : Expr :=
  .object (fields.map fun (key, value) => .field key value)

/-- Whether a value is `undefined`. -/
def isUndefined (e : Expr) : Expr := .binary e .strictEq .undefined

end Expr

/-- Whether an entry has a key of its own, and which. -/
def Entry.key? {ε : Type} : Entry ε → Option String
  | .field key _ => some key
  | .spread _ => none

end TypedBindings.TypeScript
