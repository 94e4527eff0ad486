import TypedBindings.Json.Reader

/-!
# Records with named fields

A `Record` says how a structure is written as a JSON object, field by field; the fields are put
together with `<$>` and `<*>`. It reads the object form, where the first fault of the text counts
whatever the order of the fields in the structure, and the array form, which lists the fields in
the structure's order.

* `Record.read`: reads either form.
* `Record.readObject`: reads the object form only.
-/

namespace TypedBindings.Json

/-- A fault with the index of the member it concerns. Faults of a record as a whole come after
those of its members. -/
structure Located where
  place : Nat
  fault : Fault

/-- How a structure is read, from the members of an object or from the items of an array. -/
structure Record (α : Type) where
  names : List String
  ofMembers : List (String × Json) → Except Located α
  /-- Reads the fields off the front of a list of items and gives the items that are left. -/
  ofItems : List Json → Except Fault (α × List Json)

namespace Record

variable {α β : Type}

/-- The earlier of two faults, the first one when both are in one place. -/
def earlier (a b : Located) : Located := if b.place < a.place then b else a

/-- Two results of reading the same members: the earliest fault of both counts. -/
def combine (f : Except Located (α → β)) (x : Except Located α) : Except Located β :=
  match f, x with
  | .ok f, .ok x => .ok (f x)
  | .error a, .error b => .error (earlier a b)
  | .error a, .ok _ => .error a
  | .ok _, .error b => .error b

instance : Applicative Record where
  pure x := ⟨[], fun _ => .ok x, fun items => .ok (x, items)⟩
  seq f x :=
    { names := f.names ++ (x ()).names
      ofMembers := fun members => combine (f.ofMembers members) ((x ()).ofMembers members)
      ofItems := fun items => do
        let (g, items) ← f.ofItems items
        let (a, items) ← (x ()).ofItems items
        return (g a, items) }

/-- The values of a name with the indices of their members, counted from `start`. -/
def occurrences (name : String) (start : Nat) : List (String × Json) → List (Nat × Json)
  | [] => []
  | (k, v) :: rest =>
    if k = name then (start, v) :: occurrences name (start + 1) rest
    else occurrences name (start + 1) rest

/-- One field: read where it stands, refused where it stands again. -/
def fieldOr (name : String) (item : Reader α) (absent : Except Fault α)
    (members : List (String × Json)) : Except Located α :=
  match occurrences name 0 members with
  | [] => absent.mapError fun fault => ⟨members.length, fault⟩
  | [(i, v)] => (item v).mapError fun fault => ⟨i, fault⟩
  -- The first value is read before the second is met.
  | (i, v) :: (j, _) :: _ =>
    match item v with
    | .error fault => .error ⟨i, fault⟩
    | .ok _ => .error ⟨j, .duplicateField name⟩

/-- A field that has to be there. -/
def required (name : String) (item : Reader α) : Record α where
  names := [name]
  ofMembers := fieldOr name item (.error (.missingField name))
  ofItems
    | [] => .error .shape
    | v :: rest => return (← item v, rest)

/-- A field with a value that stands in for it when it is missing. -/
def defaulted (name : String) (item : Reader α) (value : α) : Record α where
  names := [name]
  ofMembers := fieldOr name item (.ok value)
  ofItems
    | [] => .ok (value, [])
    | v :: rest => return (← item v, rest)

/-- A field that may be missing or `null`. -/
def optional (name : String) (item : Reader α) : Record (Option α) where
  names := [name]
  ofMembers := fieldOr name (asOption item) (.ok none)
  ofItems
    | [] => .ok (none, [])
    | v :: rest => return (← asOption item v, rest)

/-- The first member that no field asks for and that cannot be passed over. -/
def firstTorn (names : List String) (start : Nat) : List (String × Json) → Option Nat
  | [] => none
  | (k, v) :: rest =>
    if k ∉ names ∧ !isPassable v then some start else firstTorn names (start + 1) rest

/-- Reads the object form. -/
def readObject (record : Record α) : Reader α
  | .obj members =>
    let torn : Except Located (α → α) :=
      match firstTorn record.names 0 members with
      | none => .ok id
      | some i => .error ⟨i, .torn⟩
    (combine torn (record.ofMembers members)).mapError Located.fault
  | v => .error v.misshapen

/-- Reads the object form or the array form. -/
def read (record : Record α) : Reader α
  | .arr items => do
    match ← record.ofItems items with
    | (value, []) => return value
    | _ => throw .shape
  | v => record.readObject v

/-- The members that no field asks for, as a finite map. -/
def others (names : List String) (members : List (String × Json)) : List (String × Json) :=
  mergedMembers [] (members.filter fun m => m.1 ∉ names)

end Record

end TypedBindings.Json
