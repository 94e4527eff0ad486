import TypedBindings.Artifact.Basic

/-!
# Lowering artifacts to interfaces

The parallel lists of an artifact are put together, checked for repeated names, and their
descriptors read. The first violation counts, in the order of the artifact: fields, events one
by one, the names of the functions, functions one by one.

* `Contract.lower`, `Script.lower`: the interface of an artifact, or what is wrong with it.
-/

namespace TypedBindings.Artifact

/-- What is wrong with an artifact. -/
inductive LoweringFault where
  /-- An item's descriptor cannot be read. -/
  | badType (item : String) (cause : Abi.MalformedDescriptor)
  | fieldCount (owner : String) (names types : Nat)
  | count (owner : String) (names types : Nat)
  | repeatedName (owner name : String)
deriving DecidableEq, Repr

def LoweringFault.message : LoweringFault → String
  | .badType item cause => s!"Invalid type of `{item}`: {cause.message}"
  | .fieldCount owner names types =>
    s!"Malformed artifact `{owner}`: {names} field names but {types} field types"
  | .count owner names types => s!"Malformed artifact `{owner}`: {names} names but {types} types"
  | .repeatedName owner name => s!"Malformed artifact `{owner}`: duplicate name `{name}`"

/-- The first name that occurs among `seen` or earlier in the list. -/
def firstRepeated? (seen : List String) : List String → Option String
  | [] => none
  | name :: rest => if name ∈ seen then some name else firstRepeated? (name :: seen) rest

def checkUnique (owner : String) (names : List String) : Except LoweringFault Unit :=
  match firstRepeated? [] names with
  | some name => .error (.repeatedName owner name)
  | none => .ok ()

/-- Reads the descriptor of an item. -/
def lowerType (item descriptor : String) : Except LoweringFault Abi.ValueType :=
  (Abi.ValueType.ofDescriptor descriptor).mapError (.badType item)

/-- Reads the descriptors of named items in their order. -/
def lowerNamed (owner : String) : List (String × String) → Except LoweringFault (List Abi.Param)
  | [] => .ok []
  | (name, descriptor) :: rest => do
    let type ← lowerType (owner ++ "." ++ name) descriptor
    return ⟨name, type⟩ :: (← lowerNamed owner rest)

/-- Puts the mutability of fields beside them; a field past the end of the list is immutable. -/
def withMutability : List Abi.Param → List Bool → List Abi.Field
  | [], _ => []
  | p :: rest, flags => ⟨p.name, p.type, flags.headD false⟩ :: withMutability rest flags.tail

def Fields.lower (owner : String) (f : Fields) : Except LoweringFault (List Abi.Field) := do
  if f.names.length ≠ f.types.length then
    throw (.fieldCount owner f.names.length f.types.length)
  checkUnique owner f.names
  let params ← lowerNamed owner (f.names.zip f.types)
  return withMutability params f.isMutable

def lowerParams (owner : String) (names types : List String) :
    Except LoweringFault (List Abi.Param) := do
  if names.length ≠ types.length then throw (.count owner names.length types.length)
  checkUnique owner names
  lowerNamed owner (names.zip types)

def Event.lower (owner : String) (e : Event) : Except LoweringFault Abi.Event := do
  return ⟨e.name, ← lowerParams (owner ++ "." ++ e.name) e.fieldNames e.fieldTypes⟩

def Function.lower (owner : String) (f : Function) : Except LoweringFault Abi.Function := do
  let item := owner ++ "." ++ f.name
  let params ← lowerParams item f.paramNames f.paramTypes
  let returns ← f.returnTypes.mapM (lowerType (item ++ ".return"))
  return {
    name := f.name
    isPublic := f.isPublic
    usesPreapprovedAssets := f.usesPreapprovedAssets
    usesContractAssets := f.usesContractAssets
    params
    returns }

/-- The interface of a contract. -/
def Contract.lower (c : Contract) : Except LoweringFault Abi.Contract := do
  let fields ← c.fields.lower c.name
  let events ← c.events.mapM (Event.lower c.name)
  checkUnique c.name (c.functions.map Function.name)
  let functions ← c.functions.mapM (Function.lower c.name)
  return { name := c.name, fields, events, functions, constants := c.constants, enums := c.enums }

/-- The interface of a script. -/
def Script.lower (s : Script) : Except LoweringFault Abi.Script := do
  return { name := s.name, fields := ← s.fields.lower s.name }

end TypedBindings.Artifact
