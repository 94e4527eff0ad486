import TypedBindings.Abi.Interface

/-!
# Compiled artifacts

The files that the compiler writes, one for each contract or script. Names and types come in
parallel lists, and types are descriptors that nobody has looked at yet.
-/

namespace TypedBindings.Artifact

/-- Fields as parallel lists; the last one may be shorter than the others. -/
structure Fields where
  names : List String
  types : List String
  isMutable : List Bool

/-- An event of an artifact. -/
structure Event where
  name : String
  fieldNames : List String
  fieldTypes : List String

/-- A function of an artifact. -/
structure Function where
  name : String
  usesPreapprovedAssets : Bool
  usesContractAssets : Bool
  isPublic : Bool
  paramNames : List String
  paramTypes : List String
  paramIsMutable : List Bool
  returnTypes : List String

/-- A contract's artifact. -/
structure Contract where
  version : String
  name : String
  bytecode : String
  codeHash : String
  fields : Fields
  events : List Event
  functions : List Function
  constants : List Abi.NamedConstant
  enums : List Abi.Enum

/-- A script's artifact. -/
structure Script where
  version : String
  name : String
  bytecodeTemplate : String
  fields : Fields
  functions : List Function

end Artifact

/-- A compiled artifact. -/
inductive Artifact where
  | contract (contract : Artifact.Contract)
  | script (script : Artifact.Script)

def Artifact.name : Artifact → String
  | .contract c => c.name
  | .script s => s.name

end TypedBindings
