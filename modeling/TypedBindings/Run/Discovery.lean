import TypedBindings.Artifact.Document
import TypedBindings.Files.Tree
import TypedBindings.Run.Options
import TypedBindings.Run.Report

/-!
# Discovery of artifacts

Every artifact below a directory, the bindings themselves left out.

* `candidates`: the files that are artifacts by their names.
* `Discovery.ofFiles`: the artifacts that can be read, by name, and the failures of the others.
-/

namespace TypedBindings

/-- An artifact and the way to it from the directory of artifacts. -/
structure FoundArtifact where
  path : String
  artifact : Artifact

/-- The end of the name of an artifact's file. -/
def artifactExtension : String := ".ral.json"

/-- Whether a file below the directory of artifacts is an artifact. -/
def isCandidate (f : FileTree.FoundFile) : Bool :=
  f.way.head? != some RunOptions.outputName &&
    f.way.getLast?.any fun name => artifactExtension.toList.isSuffixOf name.toList

/-- The files of artifacts below a directory. -/
def candidates (t : FileTree) (dir : String) : List FileTree.FoundFile :=
  (t.filesUnder dir).filter isCandidate

/-- Reads the artifact in a file below a directory. -/
def readArtifact (dir : String) (f : FileTree.FoundFile) : Except FileFault Artifact :=
  let path := f.way.foldl Path.join dir
  match f.text with
  | none => .error ⟨.readArtifact, path, .io⟩
  | some text =>
    match Artifact.ofText text with
    | .ok a => .ok a
    | .error fault => .error ⟨.parseArtifact, path, .json fault⟩

/-- The name by which a file is reported. -/
def FileTree.FoundFile.path (f : FileTree.FoundFile) : String := "/".intercalate f.way

structure Discovery where
  artifacts : List FoundArtifact
  failures : List UnitFailure

namespace Discovery

/-- Adds a file in front. -/
def add (dir : String) (f : FileTree.FoundFile) (d : Discovery) : Discovery :=
  match readArtifact dir f with
  | .ok a => { d with artifacts := ⟨f.path, a⟩ :: d.artifacts }
  | .error fault => { d with failures := ⟨f.path, .file fault⟩ :: d.failures }

/-- Artifacts in the order of their names; those of one name keep their order. -/
def sort (artifacts : List FoundArtifact) : List FoundArtifact :=
  artifacts.mergeSort fun a b => decide (a.artifact.name ≤ b.artifact.name)

def ofFiles (dir : String) (files : List FileTree.FoundFile) : Discovery :=
  let d := files.foldr (add dir) ⟨[], []⟩
  { d with artifacts := sort d.artifacts }

end Discovery

end TypedBindings
