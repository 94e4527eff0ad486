import TypedBindings.Files.Tree

/-!
# Changes between two trees

What has to be done to one tree to make another one of it. Only what a run can do to files is told:
directories and texts come and go, and links go.

* `FileTree.changes`: the changes in an order in which they can be made.
-/

namespace TypedBindings

inductive Change where
  /-- A directory goes, with everything in it. -/
  | removeDir (place : List String)
  /-- A file or link goes. -/
  | removeFile (place : List String)
  | makeDir (place : List String)
  | writeFile (place : List String) (text : String)
deriving DecidableEq, Repr

/-- Whether another entry can take an entry's place without its going first. -/
def Entry.givesWay : Entry → Entry → Bool
  | .dir, .dir => true
  | .file _, .file _ => true
  | .link old, .link new => old == new
  | _, _ => false

namespace FileTree

/-- Whether what stands at a place has to go. -/
def isRemoved (before after : FileTree) (place : List String) : Bool :=
  match before.entry? place, after.entry? place with
  | some old, some new => !old.givesWay new
  | some _, none => true
  | none, _ => false

/-- What goes; what stands in a directory that goes is not told. -/
def removals (before after : FileTree) : List Change :=
  before.entries.filterMap fun (place, e) =>
    if isRemoved before after place && !isRemoved before after place.dropLast then
      some (if e = .dir then .removeDir place else .removeFile place)
    else none

/-- What comes, in the order in which it came. -/
def additions (before after : FileTree) : List Change :=
  after.entries.filterMap fun (place, e) =>
    if before.entry? place = some e then none
    else
      match e with
      | .dir => some (.makeDir place)
      | .file (some text) => some (.writeFile place text)
      | _ => none

/-- The changes that lead from one tree to another. -/
def changes (before after : FileTree) : List Change :=
  removals before after ++ additions before after

end FileTree

end TypedBindings
