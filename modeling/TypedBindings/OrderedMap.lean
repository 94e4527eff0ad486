/-!
# Finite maps in insertion order

A finite map is the list of its entries. Setting a key that is present replaces its value where it
stands, so the order of a map is that in which its keys came first.

* `put`: sets a key.
* `ofList`: the map of a list of entries; of several entries with one key the last counts.
-/

namespace TypedBindings.OrderedMap

variable {α : Type}

/-- Sets a key. -/
def put (key : String) (value : α) : List (String × α) → List (String × α)
  | [] => [(key, value)]
  | (k, v) :: rest => if k = key then (k, value) :: rest else (k, v) :: put key value rest

/-- The map of a list of entries. -/
def ofList (entries : List (String × α)) : List (String × α) :=
  entries.foldl (fun done (key, value) => put key value done) []

/-- A key that is put is there, and no other key is changed. -/
theorem lookup_put (key : String) (value : α) (m : List (String × α)) (k : String) :
    (put key value m).lookup k = if k = key then some value else m.lookup k := by
  induction m with
  | nil =>
    by_cases h : k = key
    · simp [put, h]
    · simp [put, h, List.lookup_cons, beq_false_of_ne h]
  | cons e rest ih =>
    obtain ⟨k', v⟩ := e
    rw [put]
    by_cases hk : k = k'
    · subst hk
      split <;> simp_all
    · split
      · next h => subst h; simp [hk, List.lookup_cons, beq_false_of_ne hk]
      · simp [List.lookup_cons, beq_false_of_ne hk, ih]

/-- The keys keep their order, and a new key goes to the end. -/
theorem keys_put (key : String) (value : α) (m : List (String × α)) :
    (put key value m).map Prod.fst =
      if key ∈ m.map Prod.fst then m.map Prod.fst else m.map Prod.fst ++ [key] := by
  induction m with
  | nil => simp [put]
  | cons e rest ih =>
    obtain ⟨k, v⟩ := e
    rw [put]
    split
    · next h => subst h; simp
    · next h =>
      have hne : key ≠ k := fun he => h he.symm
      rw [List.map_cons, ih]
      by_cases hk : key ∈ rest.map Prod.fst <;> simp_all

end TypedBindings.OrderedMap
