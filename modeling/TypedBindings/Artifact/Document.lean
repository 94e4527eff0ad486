import TypedBindings.Artifact.Basic
import TypedBindings.Json.Parser
import TypedBindings.Json.Record

/-!
# Documents of artifacts

How artifacts are read from JSON and written to it. A script is told from a contract by its
bytecode template.

* `Artifact.ofText`: reads an artifact; of members with one name the last counts.
* `Artifact.toJson`: writes an artifact with all its fields.
-/

namespace TypedBindings.Artifact

open Json Json.Record

/-! ## Reading -/

/-- A list of strings. -/
def strings : Reader (List String) := asList asString

def bools : Reader (List Bool) := asList asBool

/-- The fields of a contract as three lists side by side. -/
def Fields.record : Record Fields :=
  Fields.mk <$> required "names" strings <*> required "types" strings <*>
    defaulted "isMutable" bools []

/-- An event, whose lists of names and types stand side by side. -/
def Event.record : Record Event :=
  Event.mk <$> required "name" asString <*> required "fieldNames" strings <*>
    required "fieldTypes" strings

/-- A function, with the flags that say how it may be called. -/
def Function.record : Record Function :=
  Function.mk <$> required "name" asString <*> defaulted "usePreapprovedAssets" asBool false <*>
    defaulted "useAssetsInContract" asBool false <*> required "isPublic" asBool <*>
    required "paramNames" strings <*> required "paramTypes" strings <*>
    defaulted "paramIsMutable" bools [] <*> required "returnTypes" strings

/-- A named constant, as a contract and its enums list them. -/
def namedConstant : Record Abi.NamedConstant :=
  Abi.NamedConstant.mk <$> required "name" asString <*> required "value" Abi.Constant.ofJson

/-- An enum with its members. -/
def enum : Record Abi.Enum :=
  Abi.Enum.mk <$> required "name" asString <*> required "fields" (asList namedConstant.read)

/-- A contract's artifact; lists that are left out are empty. -/
def Contract.record : Record Contract :=
  Contract.mk <$> defaulted "version" asString "" <*> required "name" asString <*>
    required "bytecode" asString <*> required "codeHash" asString <*>
    required "fieldsSig" Fields.record.read <*>
    defaulted "eventsSig" (asList Event.record.read) [] <*>
    defaulted "functions" (asList Function.record.read) [] <*>
    defaulted "constants" (asList namedConstant.read) [] <*>
    defaulted "enums" (asList enum.read) []

/-- A script's artifact. -/
def Script.record : Record Script :=
  Script.mk <$> defaulted "version" asString "" <*> required "name" asString <*>
    required "bytecodeTemplate" asString <*> required "fieldsSig" Fields.record.read <*>
    defaulted "functions" (asList Function.record.read) []

/-- Reads an artifact from a document. -/
def ofJson (v : Json) : Except Fault Artifact :=
  if (v.get? "bytecodeTemplate").isSome then (Script.record.read v).map .script
  else (Contract.record.read v).map .contract

/-- Reads the artifact that a text holds. -/
def ofText (text : String) : Except Fault Artifact :=
  match Json.parse? text depthLimit with
  | some v => ofJson v.merged
  | none => .error .torn

/-! ## Writing -/

def stringsJson (xs : List String) : Json := .arr (xs.map .str)

def boolsJson (xs : List Bool) : Json := .arr (xs.map .bool)

def Fields.toJson (f : Fields) : Json :=
  .obj [("names", stringsJson f.names), ("types", stringsJson f.types),
    ("isMutable", boolsJson f.isMutable)]

def Event.toJson (e : Event) : Json :=
  .obj [("name", .str e.name), ("fieldNames", stringsJson e.fieldNames),
    ("fieldTypes", stringsJson e.fieldTypes)]

def Function.toJson (f : Function) : Json :=
  .obj [("name", .str f.name), ("usePreapprovedAssets", .bool f.usesPreapprovedAssets),
    ("useAssetsInContract", .bool f.usesContractAssets), ("isPublic", .bool f.isPublic),
    ("paramNames", stringsJson f.paramNames), ("paramTypes", stringsJson f.paramTypes),
    ("paramIsMutable", boolsJson f.paramIsMutable), ("returnTypes", stringsJson f.returnTypes)]

def namedConstantJson (c : Abi.NamedConstant) : Json :=
  .obj [("name", .str c.name), ("value", c.value.toJson)]

def enumJson (e : Abi.Enum) : Json :=
  .obj [("name", .str e.name), ("fields", .arr (e.members.map namedConstantJson))]

/-- A contract's artifact as it is written, with every member in it. -/
def Contract.toJson (c : Contract) : Json :=
  .obj [("version", .str c.version), ("name", .str c.name), ("bytecode", .str c.bytecode),
    ("codeHash", .str c.codeHash), ("fieldsSig", c.fields.toJson),
    ("eventsSig", .arr (c.events.map Event.toJson)),
    ("functions", .arr (c.functions.map Function.toJson)),
    ("constants", .arr (c.constants.map namedConstantJson)),
    ("enums", .arr (c.enums.map enumJson))]

/-- A script's artifact as it is written. -/
def Script.toJson (s : Script) : Json :=
  .obj [("version", .str s.version), ("name", .str s.name),
    ("bytecodeTemplate", .str s.bytecodeTemplate), ("fieldsSig", s.fields.toJson),
    ("functions", .arr (s.functions.map Function.toJson))]

/-- An artifact as it is written. -/
def toJson : Artifact → Json
  | .contract c => c.toJson
  | .script s => s.toJson

end TypedBindings.Artifact
