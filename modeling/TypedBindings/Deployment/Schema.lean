import TypedBindings.Deployment.Manifest

/-!
# The schema of several records

Task ids are required if every record has them and optional otherwise.

* `MergedIds.merge`: the ids of several lists, in the order of the first list or of first
  occurrence.
* `MergedIds.retain`: drops ids.
-/

namespace TypedBindings

/-- The members of a list without repetitions, in the order of first occurrence. -/
def distinct : List String → List String
  | [] => []
  | x :: rest => x :: (distinct rest).filter (· ≠ x)

/-- Ids, by whether every list has them. -/
structure MergedIds where
  /-- The ids that are in every list. -/
  required : List String
  /-- The ids that are in some lists only. -/
  optional : List String
deriving DecidableEq, Repr

namespace MergedIds

def isEmpty (m : MergedIds) : Bool := m.required.isEmpty && m.optional.isEmpty

/-- The required ids, then the optional ones. -/
def all (m : MergedIds) : List String := m.required ++ m.optional

/-- The ids of several lists. Without a list there are none. -/
def merge : List (List String) → MergedIds
  | [] => ⟨[], []⟩
  | first :: rest =>
    let required := distinct (first.filter fun id => rest.all fun set => set.contains id)
    let optional := (distinct (first :: rest).flatten).filter fun id => !required.contains id
    ⟨required, optional⟩

/-- The ids that a predicate accepts. -/
def retain (keep : String → Bool) (m : MergedIds) : MergedIds :=
  ⟨m.required.filter keep, m.optional.filter keep⟩

/-- The ids that a predicate rejects. -/
def removed (keep : String → Bool) (m : MergedIds) : List String :=
  m.required.filter (!keep ·) ++ m.optional.filter (!keep ·)

end MergedIds

/-- The tasks of several records, contracts and scripts apart. -/
structure Schema where
  contracts : MergedIds
  scripts : MergedIds

namespace Schema

def ofRecords (records : List DeployerRecord) : Schema where
  contracts := .merge (records.map fun r => r.contracts.map Prod.fst)
  scripts := .merge (records.map fun r => r.scripts.map Prod.fst)

def hasScripts (s : Schema) : Bool := !s.scripts.isEmpty

end Schema

end TypedBindings
