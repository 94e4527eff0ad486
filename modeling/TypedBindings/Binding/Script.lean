import TypedBindings.Binding.Names
import TypedBindings.Binding.Types
import TypedBindings.TypeScript.SourceUnit

/-!
# The unit of the scripts

All scripts share one unit, sorted by name, with an executable constant for each.
-/

namespace TypedBindings.Binding

open Abi TypeScript

/-- The names that the unit takes from the runtime. -/
def scriptImports : List String :=
  ["Address", "ExecutableScript", "ExecuteScriptParams", "ExecuteScriptResult", "Script",
    "SignerProvider", "HexString"]

/-- The name of a script's imported artifact. -/
def scriptJsonName (script : String) : String := script ++ "ScriptJson"

/-- The executable constant of a script. -/
def scriptValue (s : Script) : Expr :=
  .construct "ExecutableScript" [fieldsType s.userFields]
    [.callNamed "Script.fromJson" [.ident (scriptJsonName s.name)]]

/-- Scripts in the order of their names; those of one name keep their order. -/
def sortScripts (scripts : List (Script × String)) : List (Script × String) :=
  scripts.mergeSort fun a b => decide (a.1.name ≤ b.1.name)

/-- The unit of scripts that come with the paths of their artifacts. -/
def scriptsUnit (scripts : List (Script × String)) : SourceUnit :=
  let sorted := sortScripts scripts
  { name := scriptsUnitName
    items :=
      .importDecl ⟨.names scriptImports, runtimePackage⟩ ::
        sorted.map (fun (s, path) =>
          .importDecl ⟨.default (scriptJsonName s.name), artifactSource path⟩) ++
        sorted.map fun (s, _) =>
          .variableDecl { name := s.name, isExported := true } (scriptValue s) }

end TypedBindings.Binding
