import TypedBindings.Deployment.Selection
import TypedBindings.Files.Fault
import TypedBindings.Files.Tree
import TypedBindings.Log.Event

/-!
# Manifests in a directory

Reads the manifests of networks from a directory. A network without a manifest is passed over; a
manifest that cannot be read ends the reading.
-/

namespace TypedBindings

/-- The path of a network's manifest. -/
def Network.manifestPath (n : Network) (dir : String) : String := Path.join dir n.manifestName

namespace Manifest

/-- Reads the manifest of a network from a directory, if there is one. -/
def ofDir? (t : FileTree) (dir : String) (n : Network) : Except FileFault (Option Manifest) :=
  let path := n.manifestPath dir
  if t.hasEntry path then
    match t.readText path with
    | none => .error ⟨.readManifest, path, .io⟩
    | some text =>
      match Manifest.ofText text with
      | .ok records => .ok (some ⟨n, path, records⟩)
      | .error fault => .error ⟨.parseManifest, path, .json fault⟩
  else .ok none

/-- What is logged about a network. -/
def report (n : Network) : Option Manifest → Log.Event
  | some m => ⟨.debug, .manifests, s!"Found {m.records.length} deployment record(s) for {n.id}"⟩
  | none => ⟨.debug, .manifests, s!"No deployments for {n.id}"⟩

end Manifest

namespace Manifests

/-- Reads the manifests of networks in their order, and says what is logged meanwhile. -/
def ofDir (t : FileTree) (dir : String) :
    List Network → List Log.Event × Except FileFault Manifests
  | [] => ([], .ok ⟨[]⟩)
  | n :: rest =>
    match Manifest.ofDir? t dir n with
    | .error fault => ([], .error fault)
    | .ok found =>
      let (log, result) := ofDir t dir rest
      (Manifest.report n found :: log,
        result.map fun m => ⟨found.toList ++ m.networks⟩)

end Manifests

end TypedBindings
