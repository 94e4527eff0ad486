import TypedBindings.Files.Change
import TypedBindings.Run.Program

/-!
# The command line program

Takes what a run looks at from the disk, carries the run out, and makes its changes on the disk.
-/

namespace TypedBindings

/-- The names of the place that a path leads to on the disk. -/
def placeOnDisk? (path : String) : IO (Option (List String)) := do
  try return some (Path.names (← IO.FS.realPath path).toString)
  catch _ => return none

/-- A tree with the directories down to a place. -/
def withDirs (t : FileTree) (place : List String) : FileTree :=
  (List.range place.length).foldl (fun t n => t.set (place.take (n + 1)) .dir) t

/-- The entry of a link; one that leads nowhere leads to itself. -/
def linkOnDisk (path name : String) : IO Entry := do
  return .link (((← placeOnDisk? path).map Path.ofNames).getD name)

def fileOnDisk (path : String) : IO Entry := do
  return .file (String.fromUTF8? (← IO.FS.readBinFile path))

/-- Adds what stands at a place and below. -/
partial def load (t : FileTree) (place : List String) : IO FileTree := do
  let path := Path.ofNames place
  let entries ← try some <$> (← IO.FS.realPath path).readDir catch _ => pure none
  match entries with
  | none => return t.set place (← fileOnDisk path)
  | some entries =>
    let mut t := t.set place .dir
    for e in entries do
      match (← e.path.symlinkMetadata).type with
      | .symlink => t := t.set (place ++ [e.fileName]) (← linkOnDisk e.path.toString e.fileName)
      | .other => pure ()
      | _ => t ← load t (place ++ [e.fileName])
    return t

/-- Adds what a path leads through, name by name from a place that the tree has, and what it leads
to. -/
def loadFrom (t : FileTree) (here : List String) : List String → IO FileTree
  | [] => load t here
  | name :: rest => do
    let next := here ++ [name]
    match ← placeOnDisk? (Path.ofNames next) with
    | none => return t
    | some place =>
      let t := withDirs t place.dropLast
      let isLink := place ≠ next && name ≠ "." && name ≠ ".."
      loadFrom (if isLink then t.set next (.link (Path.ofNames place)) else t) place rest

/-- Adds what a path leads to. -/
def loadPath (t : FileTree) (path : String) : IO FileTree :=
  loadFrom t (if Path.isAbsolute path then [] else t.workDir) (Path.steps path)

def Change.make : Change → IO Unit
  | .removeDir place => IO.FS.removeDirAll (Path.ofNames place)
  | .removeFile place => IO.FS.removeFile (Path.ofNames place)
  | .makeDir place => IO.FS.createDir (Path.ofNames place)
  | .writeFile place text => IO.FS.writeFile (Path.ofNames place) text

/-- The part of the disk that a command line is about. -/
def treeOnDisk (args : List String) (environment : Environment) : IO FileTree := do
  let workDir := (← placeOnDisk? ".").getD []
  let t := withDirs { entries := [], workDir } workDir
  match Command.parse args environment with
  | .error _ => return t
  | .ok c =>
    let t ← loadPath t (Program.settingsPath c t)
    (Program.inputs c t).foldlM loadPath t

/-- The values of the environment's variables. -/
def environmentValues : IO (List (String × Option String)) :=
  [Program.projectVariable, Program.artifactVariable, Program.deploymentVariable].mapM
    fun name => return (name, ← IO.getEnv name)

end TypedBindings

open TypedBindings in
def main (args : List String) : IO UInt32 := do
  let values ← environmentValues
  let environment := Program.environmentOf fun name => (values.lookup name).join
  let filter ← IO.getEnv Program.filterVariable
  let before ← treeOnDisk args environment
  let result := Program.run args environment filter before
  (before.changes result.tree).forM Change.make
  (← IO.getStdout).putStr result.streams.output
  (← IO.getStderr).putStr result.streams.error
  return UInt32.ofNat result.exit
