import TypedBindings.Json.Parser
import TypedBindings.Json.Record

/-!
# Project files

The file that the compiler writes beside the artifacts, with facts about the code of every
contract and script by name.
-/

namespace TypedBindings

/-- Facts about the code of one contract or script. -/
structure CodeInfo where
  sourceFile : String
  sourceCodeHash : String
  bytecodeDebugPatch : String
  codeHashDebug : String
  warnings : List String

/-- What the project file says of the compiled code. -/
structure Project where
  fullNodeVersion : Option String
  infos : List (String × CodeInfo)

open Json Json.Record

def CodeInfo.record : Record CodeInfo :=
  CodeInfo.mk <$> required "sourceFile" asString <*> defaulted "sourceCodeHash" asString "" <*>
    required "bytecodeDebugPatch" asString <*> required "codeHashDebug" asString <*>
    defaulted "warnings" (asList asString) []

def CodeInfo.toJson (i : CodeInfo) : Json :=
  .obj [("sourceFile", .str i.sourceFile), ("sourceCodeHash", .str i.sourceCodeHash),
    ("bytecodeDebugPatch", .str i.bytecodeDebugPatch), ("codeHashDebug", .str i.codeHashDebug),
    ("warnings", .arr (i.warnings.map .str))]

namespace Project

/-- The name of the file in its directory. -/
def fileName : String := ".project.json"

/-- How a project file is read. -/
def record : Record Project :=
  Project.mk <$> optional "fullNodeVersion" asString <*>
    required "infos" (asMap CodeInfo.record.read)

/-- Reads the project that a text holds. -/
def ofText (text : String) : Except Fault Project :=
  readWhole record.read (Json.ofText text depthLimit)

/-- A project file as it is written. -/
def toJson (p : Project) : Json :=
  .obj [("fullNodeVersion", p.fullNodeVersion.elim .null .str),
    ("infos", .obj (p.infos.map fun (name, i) => (name, i.toJson)))]

/-- The facts about the code of a name. -/
def info? (p : Project) (name : String) : Option CodeInfo := p.infos.lookup name

end Project

end TypedBindings
