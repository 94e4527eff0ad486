import TypedBindings.Binding.Types

/-!
# Types built list by list

A tuple has an element for each element of the array, and a list can be allocated only if its
elements together stay within a limit. Descriptors give lengths up to the largest machine word,
which is far beyond the limit.

* `builtTypeOf`: the type that stands for an ABI type, if its lists can be allocated.
* `Contract.usedTypes`, `Script.usedTypes`: the types that a binding is made of.
-/

namespace TypedBindings

open TypeScript

namespace Abi

/-- The types of a contract's interface that its unit shows. -/
def Contract.usedTypes (c : Contract) : List ValueType :=
  c.userFields.map Field.type ++ c.events.flatMap (fun e => e.fields.map Param.type) ++
    c.functions.flatMap fun f => f.params.map Param.type ++ f.returns

/-- The types that the constant of a script shows. -/
def Script.usedTypes (s : Script) : List ValueType := s.userFields.map Field.type

end Abi

namespace Binding

open Abi

/-- The largest size of a list, in bytes: the largest signed machine word. -/
def allocationLimit : Nat := 9223372036854775807

/-- So many times an element of a size, unless that cannot be allocated. -/
def allocated (size length : Nat) (element : Ty) : Option (List Ty) :=
  if length * size ≤ allocationLimit then some (List.replicate length element) else none

/-- The type that stands for an ABI type, built from the inside with elements of a size; nothing, if
one of its lists cannot be allocated. -/
def builtTypeOf (size : Nat) : ValueType → Option Ty
  | .scalar kind => some (.named (scalarType kind))
  | .array element length => do
    let type ← builtTypeOf size element
    return .tuple (← allocated size length.val type)

/-- Whether some types can be built. -/
def canBuild (size : Nat) (types : List ValueType) : Bool :=
  types.all fun type => (builtTypeOf size type).isSome

end Binding

end TypedBindings
