import TypedBindings.Deployment.Network
import TypedBindings.Files.Fault
import TypedBindings.Files.Tree
import TypedBindings.Settings.Toml

/-!
# Settings of a project

The optional file beside a project that says where its artifacts and manifests are.

* `Settings.ofText?`: reads settings; a key that is not known is refused.
* `Settings.ofDir`: reads the settings of a project, which are empty if it has no such file.
-/

namespace TypedBindings

structure Settings where
  artifactDir : Option String := none
  deploymentDir : Option String := none
  /-- The networks whose manifests are read, in their order. -/
  networks : Option (List Network) := none

namespace Settings

/-- The name of the file in its project. -/
def fileName : String := "abigen.toml"

/-- Settings with one more key. -/
def set? (s : Settings) : String × Toml.Value → Option Settings
  | ("artifact-dir", .string dir) => some { s with artifactDir := some dir }
  | ("deployment-dir", .string dir) => some { s with deploymentDir := some dir }
  | ("networks", .list ids) =>
    (ids.mapM Network.ofId?).map fun networks => { s with networks := some networks }
  | _ => none

def ofText? (text : String) : Option Settings := do
  (← Toml.parse? text).foldlM set? {}

/-- Reads the settings of the project in a directory. -/
def ofDir (t : FileTree) (dir : String) : Except FileFault Settings :=
  let path := Path.join dir fileName
  if t.isFile path then
    match t.readText path with
    | none => .error ⟨.readSettings, path, .io⟩
    | some text =>
      match ofText? text with
      | some settings => .ok settings
      | none => .error ⟨.parseSettings, path, .toml⟩
  else .ok {}

end Settings

end TypedBindings
