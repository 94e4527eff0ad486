import TypedBindings.Files.Path

/-!
# File trees

A tree of directories, files and symbolic links, and the operations of a run on it. An operation
that cannot be done gives nothing; why it cannot be done is not told apart.

* `FileTree.resolve`: what a path leads to.
* `FileTree.readText`, `FileTree.write`, `FileTree.createDirAll`, `FileTree.removeDirAll`: the
  operations.
* `FileTree.filesUnder`: the files below a directory, in the order of their names.
-/

namespace TypedBindings

/-- What stands at a place of a tree. -/
inductive Entry where
  | dir
  /-- A file; its text, if its bytes are one. -/
  | file (text : Option String)
  | link (target : String)
deriving DecidableEq, Repr

/-- A tree of files. Places are lists of names from the root, which is always a directory. -/
structure FileTree where
  entries : List (List String × Entry)
  /-- The directory that relative paths start from. -/
  workDir : List String

/-- What a path leads to. -/
inductive Target where
  | found (place : List String)
  /-- Nothing, but something can be put there. -/
  | vacant (place : List String)
  | nowhere
deriving DecidableEq, Repr

namespace FileTree

/-! ## Places -/

def entry? (t : FileTree) (place : List String) : Option Entry :=
  if place.isEmpty then some .dir else t.entries.lookup place

/-- Puts an entry at a place. -/
def set (t : FileTree) (place : List String) (e : Entry) : FileTree :=
  { t with entries := t.entries.filter (fun x => x.1 ≠ place) ++ [(place, e)] }

/-- Takes away a place and everything below it. -/
def erase (t : FileTree) (place : List String) : FileTree :=
  { t with entries := t.entries.filter fun x => !place.isPrefixOf x.1 }

/-- Whether a name can be that of an entry. -/
def isName (name : String) : Bool := name.utf8ByteSize ≤ 255

/-- Follows names from a directory, with `jump` for links. The last name is not followed if it is a
link, unless `follow` is set. -/
def walkWith (t : FileTree) (follow : Bool) (jump : List String → List String → Target) :
    List String → List String → Target
  | here, [] => .found here
  | here, name :: rest =>
    if name = "." then walkWith t follow jump here rest
    else if name = ".." then walkWith t follow jump here.dropLast rest
    else if !isName name then .nowhere
    else
      let place := here ++ [name]
      match t.entry? place with
      | none => if rest.isEmpty then .vacant place else .nowhere
      | some .dir => walkWith t follow jump place rest
      | some (.file _) => if rest.isEmpty then .found place else .nowhere
      -- A link is seen from the directory it stands in.
      | some (.link target) =>
        if rest.isEmpty && !follow then .found place
        else jump (if Path.isAbsolute target then [] else here) (Path.names target ++ rest)

/-- Follows names from a directory through at most so many links. -/
def walk (t : FileTree) (follow : Bool) : (links : Nat) → List String → List String → Target
  | 0 => walkWith t follow fun _ _ => .nowhere
  | links + 1 => walkWith t follow (walk t follow links)

/-- How many links a path may lead through. -/
def linkLimit : Nat := 40

/-- What a path leads to. A slash at its end asks for a directory. -/
def resolve (t : FileTree) (follow : Bool) (path : String) : Target :=
  if path.isEmpty || path.toList.contains '\x00' then .nowhere
  else
    t.walk follow linkLimit (if Path.isAbsolute path then [] else t.workDir)
      (Path.names path ++ if Path.endsInSlash path then ["."] else [])

/-! ## Looking -/

/-- The entry that a path leads to. -/
def lookup (t : FileTree) (path : String) : Option Entry :=
  match t.resolve true path with
  | .found place => t.entry? place
  | _ => none

/-- Whether a path leads to something. -/
def hasEntry (t : FileTree) (path : String) : Bool := (t.lookup path).isSome

def isDir (t : FileTree) (path : String) : Bool :=
  match t.lookup path with
  | some .dir => true
  | _ => false

def isFile (t : FileTree) (path : String) : Bool :=
  match t.lookup path with
  | some (.file _) => true
  | _ => false

/-- The text of a file. -/
def readText (t : FileTree) (path : String) : Option String :=
  match t.lookup path with
  | some (.file text) => text
  | _ => none

/-- The place of what a path leads to. -/
def canonical? (t : FileTree) (path : String) : Option (List String) :=
  match t.resolve true path with
  | .found place => some place
  | _ => none

/-- Whether one way comes before another, or is the same: names are compared one by one. -/
def comesBefore : List String → List String → Bool
  | [], _ => true
  | _ :: _, [] => false
  | x :: xs, y :: ys => if x = y then comesBefore xs ys else decide (x < y)

/-- A file below a directory: the way to it, and its text if its bytes are one. -/
structure FoundFile where
  way : List String
  text : Option String

/-- What stands below a place, if it is a file. -/
def fileBelow? (place : List String) : List String × Entry → Option FoundFile
  | (p, .file text) =>
    if place.isPrefixOf p then some ⟨p.drop place.length, text⟩ else none
  | _ => none

/-- The files below a directory, in the order of their names; links are not followed. -/
def filesUnder (t : FileTree) (dir : String) : List FoundFile :=
  match t.canonical? dir with
  | none => []
  | some place =>
    (t.entries.filterMap (fileBelow? place)).mergeSort fun a b => comesBefore a.way b.way

/-- The names in a directory, in their order. -/
def namesIn (t : FileTree) (dir : String) : List String :=
  match t.canonical? dir with
  | none => []
  | some place =>
    let names := t.entries.filterMap fun (p, _) =>
      if p.dropLast = place ∧ p ≠ [] then p.getLast? else none
    names.mergeSort fun a b => decide (a ≤ b)

/-! ## Changing -/

/-- Writes a file; a link is followed to where the file is. -/
def write (t : FileTree) (path : String) (text : Option String) : Option FileTree :=
  match t.resolve true path with
  | .vacant place => some (t.set place (.file text))
  | .found place =>
    match t.entry? place with
    | some (.file _) => some (t.set place (.file text))
    | _ => none
  | .nowhere => none

/-- Makes a directory where nothing stands. -/
def createDir (t : FileTree) (path : String) : Option FileTree :=
  match t.resolve false path with
  | .vacant place => some (t.set place .dir)
  | _ => none

/-- Makes a link where nothing stands. -/
def createLink (t : FileTree) (path target : String) : Option FileTree :=
  match t.resolve false path with
  | .vacant place => some (t.set place (.link target))
  | _ => none

/-- Makes a directory if there is none, and says whether there is one then. -/
def ensureDir (t : FileTree) (path : String) : FileTree × Bool :=
  match t.createDir path with
  | some t => (t, true)
  | none => (t, t.isDir path)

/-- Makes a directory and those it stands in; `depth` bounds how many. What has been made stays even
if the directory cannot be made. -/
def createDirs (depth : Nat) (path : String) (t : FileTree) : FileTree × Bool :=
  if path.isEmpty then (t, true)
  else
    match t.ensureDir path, depth, Path.parent? path with
    | (t, true), _, _ => (t, true)
    | (t, false), depth + 1, some parent =>
      match createDirs depth parent t with
      | (t, true) => t.ensureDir path
      | (t, false) => (t, false)
    | (t, false), _, _ => (t, false)

def createDirAll (t : FileTree) (path : String) : FileTree × Bool :=
  t.createDirs (Path.names path).length path

/-- Takes away a directory with everything in it, or a link. -/
def removeDirAll (t : FileTree) (path : String) : Option FileTree :=
  match t.resolve false path with
  | .found place =>
    match t.entry? place with
    | some (.file _) => none
    | some _ => some (t.erase place)
    | none => none
  | _ => none

/-- Takes away whatever a path leads to. -/
def remove (t : FileTree) (path : String) : FileTree :=
  match t.resolve false path with
  | .found place => t.erase place
  | _ => t

end FileTree

end TypedBindings
