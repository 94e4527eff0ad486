import TypedBindings.Abi.Interface
import TypedBindings.TypeScript.Expr

/-!
# Types and literals of the bindings

Scalars become named types and fixed-size arrays become tuples. Constants become literals in
which every integer is written as a big integer.
-/

namespace TypedBindings.Binding

open Abi TypeScript

/-- The type that stands for a scalar. -/
def scalarType : Scalar → String
  | .u256 => "bigint"
  | .i256 => "bigint"
  | .bool => "boolean"
  | .address => "Address"
  | .byteVec => "HexString"

/-- The type that stands for an ABI type. -/
def typeOf : ValueType → Ty
  | .scalar kind => .named (scalarType kind)
  | .array element length => .tuple (List.replicate length.val (typeOf element))

/-- The object type of some named and typed values. -/
def recordType (entries : List (String × ValueType)) : Ty :=
  .object (entries.map fun (name, type) => .plain name (typeOf type))

/-- The object type of some parameters. -/
def paramsType (params : List Abi.Param) : Ty :=
  recordType (params.map fun p => (p.name, p.type))

/-- The object type of some fields. -/
def fieldsType (fields : List Field) : Ty := recordType (fields.map fun f => (f.name, f.type))

/-- What a function returns: nothing, a bare value, or a tuple. -/
def returnsType : List ValueType → Ty
  | [] => .named "null"
  | [type] => typeOf type
  | types => .tuple (types.map typeOf)

mutual

/-- The literal of a constant. -/
def literal : Constant → Expr
  | .bool b => .bool b
  | .u256 n => .bigInt (toString n)
  | .i256 n => .bigInt (toString n)
  | .address s => .str s
  | .byteVec s => .str s
  | .array items => .array (literals items)

def literals : List Constant → List Expr
  | [] => []
  | c :: rest => literal c :: literals rest

end

end TypedBindings.Binding
