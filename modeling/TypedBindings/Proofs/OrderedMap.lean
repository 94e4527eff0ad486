import Mathlib.Data.List.Induction
import TypedBindings.OrderedMap

/-!
# The map of a list of entries

* `lookup_ofList`: of the entries with one key the last counts.
* `nodup_keys_put`, `nodup_keys_ofList`: no key stands twice.
* `mem_of_mem_ofList`: no entry is made up.
* `ofList_of_nodup`: a list without repeated keys is its own map.
-/

namespace TypedBindings

/-- Of the members of a list with some property there is a last one, if there is one. -/
theorem exists_getLast?_filter {α : Type} {xs : List α} {p : α → Bool} {x : α} (hx : x ∈ xs)
    (hp : p x = true) : ∃ y ∈ xs, p y = true ∧ (xs.filter p).getLast? = some y := by
  have hne : xs.filter p ≠ [] := List.ne_nil_of_mem (List.mem_filter.2 ⟨hx, hp⟩)
  obtain ⟨hy, hpy⟩ := List.mem_filter.1 (List.getLast_mem hne)
  exact ⟨_, hy, hpy, List.getLast?_eq_some_getLast hne⟩

namespace OrderedMap

variable {α : Type}

/-- Nothing is found under a key that no entry has. -/
theorem lookup_eq_none {m : List (String × α)} {k : String} :
    m.lookup k = none ↔ k ∉ m.map Prod.fst := by
  rw [List.lookup_eq_none_iff]
  constructor
  · intro h hk
    obtain ⟨e, he, rfl⟩ := List.mem_map.1 hk
    simpa using h e he
  · intro h e he
    have hne : k ≠ e.1 := fun heq => h (heq ▸ List.mem_map_of_mem he)
    simpa using hne

theorem mem_of_lookup {m : List (String × α)} {k : String} {v : α} (h : m.lookup k = some v) :
    (k, v) ∈ m := by
  obtain ⟨front, back, rfl, -⟩ := List.lookup_eq_some_iff.1 h
  exact List.mem_append_right front List.mem_cons_self

/-- Where no key stands twice, each entry is found by its key. -/
theorem lookup_of_mem {m : List (String × α)} (hm : (m.map Prod.fst).Nodup) {e : String × α}
    (he : e ∈ m) : m.lookup e.1 = some e.2 := by
  induction m with
  | nil => exact absurd he List.not_mem_nil
  | cons e' rest ih =>
    rw [List.map_cons, List.nodup_cons] at hm
    rcases List.mem_cons.1 he with rfl | he
    · exact List.lookup_cons_self
    · have hne : e.1 ≠ e'.1 := fun heq => hm.1 (heq ▸ List.mem_map_of_mem he)
      rw [List.lookup_cons, beq_false_of_ne hne]
      exact ih hm.2 he

theorem lookup_map {β : Type} (f : α → β) (m : List (String × α)) (k : String) :
    (m.map fun (key, v) => (key, f v)).lookup k = (m.lookup k).map f := by
  induction m with
  | nil => rfl
  | cons e rest ih =>
    obtain ⟨key, v⟩ := e
    rw [List.map_cons, List.lookup_cons, List.lookup_cons, ih]
    split <;> rfl

/-- The last entry is put into the map of those in front of it. -/
theorem ofList_append (entries : List (String × α)) (key : String) (value : α) :
    ofList (entries ++ [(key, value)]) = put key value (ofList entries) := by
  unfold ofList; rw [List.foldl_append]; rfl

/-- Of the entries with one key the last counts. -/
theorem lookup_ofList (entries : List (String × α)) (k : String) :
    (ofList entries).lookup k = ((entries.filter (·.1 = k)).getLast?).map Prod.snd := by
  induction entries using List.reverseRecOn with
  | nil => rfl
  | append_singleton rest e ih =>
    obtain ⟨key, value⟩ := e
    rw [ofList_append, lookup_put, List.filter_append]
    by_cases h : k = key
    · subst h; simp
    · have h' : key ≠ k := fun he => h he.symm
      simp [h, h', ih]

/-- Putting an entry does not repeat a key. -/
theorem nodup_keys_put {m : List (String × α)} (hm : (m.map Prod.fst).Nodup) (key : String)
    (value : α) : ((put key value m).map Prod.fst).Nodup := by
  rw [keys_put]
  split
  · exact hm
  · next h =>
    rw [List.nodup_append]
    refine ⟨hm, by simp, fun k hk k' hk' => ?_⟩
    rw [List.mem_singleton] at hk'
    rintro rfl
    exact h (hk' ▸ hk)

/-- A key that is not there goes to the end. -/
theorem put_of_not_mem {m : List (String × α)} {key : String} (h : key ∉ m.map Prod.fst)
    (value : α) : put key value m = m ++ [(key, value)] := by
  induction m with
  | nil => rfl
  | cons e rest ih =>
    rw [List.map_cons, List.mem_cons, not_or] at h
    rw [put, if_neg (fun he => h.1 he.symm), ih h.2, List.cons_append]

theorem nodup_keys_ofList (entries : List (String × α)) :
    ((ofList entries).map Prod.fst).Nodup := by
  induction entries using List.reverseRecOn with
  | nil => exact List.nodup_nil
  | append_singleton rest e ih =>
    obtain ⟨key, value⟩ := e
    rw [ofList_append]
    exact nodup_keys_put ih key value

/-- An entry of the map is the new one or an old one. -/
theorem mem_put {e : String × α} {m : List (String × α)} {key : String} {value : α}
    (h : e ∈ put key value m) : e = (key, value) ∨ e ∈ m := by
  induction m with
  | nil => exact Or.inl (List.mem_singleton.1 h)
  | cons e' rest ih =>
    obtain ⟨k, v⟩ := e'
    rw [put] at h
    split at h
    · next hk =>
      subst hk
      rcases List.mem_cons.1 h with rfl | h
      · exact Or.inl rfl
      · exact Or.inr (List.mem_cons_of_mem _ h)
    · rcases List.mem_cons.1 h with rfl | h
      · exact Or.inr List.mem_cons_self
      · exact (ih h).imp_right (List.mem_cons_of_mem _)

theorem mem_of_mem_ofList {e : String × α} {entries : List (String × α)} (h : e ∈ ofList entries) :
    e ∈ entries := by
  induction entries using List.reverseRecOn with
  | nil => exact h
  | append_singleton rest e' ih =>
    obtain ⟨key, value⟩ := e'
    rw [ofList_append] at h
    rcases mem_put h with rfl | h
    · exact List.mem_append_right _ (List.mem_singleton.2 rfl)
    · exact List.mem_append_left _ (ih h)

/-- Entries with keys of their own are their map. -/
theorem ofList_of_nodup {m : List (String × α)} (h : (m.map Prod.fst).Nodup) : ofList m = m := by
  induction m using List.reverseRecOn with
  | nil => rfl
  | append_singleton rest e ih =>
    rw [List.map_append, List.nodup_append] at h
    obtain ⟨hrest, -, hne⟩ := h
    rw [ofList_append, ih hrest]
    exact put_of_not_mem (fun hin => hne _ hin _ (by simp) rfl) _

end OrderedMap

end TypedBindings
