import TypedBindings.Text.Pieces

/-!
# Paths

Paths as texts, with slashes between their names.

* `join`: a path seen from a directory.
* `parent?`: the path without its last name.
* `relative`, `specifier`: the way from a directory to a file, and its form in an import.
-/

namespace TypedBindings.Path

/-- The names of a path, empty ones left out. -/
def names (path : String) : List String :=
  (Text.words (· == '/') path.toList).map String.ofList

def isAbsolute (path : String) : Bool := path.toList.head? == some '/'

def endsInSlash (path : String) : Bool := path.toList.getLast? == some '/'

/-- A path as seen from a directory. An absolute path stands for itself. -/
def join (dir path : String) : String :=
  if isAbsolute path || dir.isEmpty then path
  else if endsInSlash dir then dir ++ path
  else dir ++ "/" ++ path

/-- The names of a path without those that lead nowhere. -/
def steps (path : String) : List String :=
  let all := names path
  if isAbsolute path then all.filter (· ≠ ".")
  else all.take 1 ++ (all.drop 1).filter (· ≠ ".")

/-- The path of the directory in which a path's last name stands. -/
def parent? (path : String) : Option String :=
  match steps path with
  | [] => none
  | all => some ((if isAbsolute path then "/" else "") ++ "/".intercalate all.dropLast)

/-- The path that names from the root make up. -/
def ofNames (names : List String) : String := "/" ++ "/".intercalate names

/-- What is left of two lists behind the part they share at the front. -/
def withoutShared : List String → List String → List String × List String
  | x :: xs, y :: ys => if x = y then withoutShared xs ys else (x :: xs, y :: ys)
  | xs, ys => (xs, ys)

/-- The way from a directory to a file, both given by their names from the root. -/
def relative (dir file : List String) : List String :=
  let (up, down) := withoutShared dir file
  up.map (fun _ => "..") ++ down

/-- A way as imports write it: it begins with a dot. -/
def specifier (way : List String) : String :=
  let path := "/".intercalate way
  if ['.', '.'].isPrefixOf path.toList then path else "./" ++ path

end TypedBindings.Path
