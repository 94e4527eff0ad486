import TypedBindings.Proofs.Json.Leaves
import TypedBindings.Proofs.OrderedMap

/-!
# Merging members of one name

* `mergedMembers_eq`: the members of an object become a map, value by value.
* `IsTidy`: a plain document in which no object has two members of one name.
* `IsPlain.isTidy_merged`, `IsTidy.merged_eq`: merging makes a plain document tidy, and changes
  nothing in a tidy one.
-/

namespace TypedBindings.Json

/-- Items are merged one by one. -/
theorem mergedItems_eq (items : List Json) : mergedItems items = items.map merged := by
  induction items with
  | nil => rfl
  | cons v rest ih => rw [mergedItems, List.map_cons, ih]

/-- Members are put into a map in their order, so the last of one name counts. -/
theorem mergedMembers_eq_foldl (done members : List (String × Json)) :
    mergedMembers done members =
      members.foldl (fun done m => OrderedMap.put m.1 m.2.merged done) done := by
  induction members generalizing done with
  | nil => rfl
  | cons m rest ih => obtain ⟨k, v⟩ := m; rw [mergedMembers, ih]; rfl

/-- The members of an object become a map. -/
theorem mergedMembers_eq (members : List (String × Json)) :
    mergedMembers [] members = OrderedMap.ofList (members.map fun m => (m.1, m.2.merged)) := by
  rw [mergedMembers_eq_foldl, OrderedMap.ofList, List.foldl_map]

/-- A value without parts has nothing to merge. -/
theorem merged_of_isLeaf {v : Json} (hv : v.isLeaf = true) : v.merged = v := by
  cases v with
  | arr items => cases hv
  | obj members => cases hv
  | _ => rfl

/-- A plain document in which no object has two members of one name. -/
inductive IsTidy : Json → Prop
  | leaf {v : Json} (hv : v.isLeaf = true) (h : v.IsPlainLeaf) : IsTidy v
  | arr {items : List Json} (h : ∀ v ∈ items, IsTidy v) : IsTidy (.arr items)
  | obj {members : List (String × Json)} (hnodup : (members.map Prod.fst).Nodup)
      (h : ∀ m ∈ members, IsTidy m.2) : IsTidy (.obj members)

@[simp] theorem isTidy_null : IsTidy .null := .leaf rfl trivial

@[simp] theorem isTidy_bool (b : Bool) : IsTidy (.bool b) := .leaf rfl trivial

@[simp] theorem isTidy_str (s : String) : IsTidy (.str s) := .leaf rfl trivial

/-- A list is tidy if its items are. -/
theorem isTidy_map {α : Type} {write : α → Json} (h : ∀ a, (write a).IsTidy) (as : List α) :
    IsTidy (.arr (as.map write)) :=
  .arr (List.forall_mem_map.2 fun a _ => h a)

/-- A tidy document is plain, so it can be printed and parsed. -/
theorem IsTidy.isPlain {v : Json} (hv : v.IsTidy) : v.IsPlain := by
  induction hv with
  | leaf hv h => exact .leaf hv h
  | arr _ ih => exact .arr ih
  | obj _ _ ih => exact .obj ih

theorem map_merged_eq {members : List (String × Json)} (h : ∀ m ∈ members, m.2.merged = m.2) :
    members.map (fun m => (m.1, m.2.merged)) = members := by
  conv_rhs => rw [← List.map_id members]
  exact List.map_congr_left fun m hm => by rw [h m hm]; rfl

/-- **Merging changes nothing in a tidy document.** -/
theorem IsTidy.merged_eq {v : Json} (hv : v.IsTidy) : v.merged = v := by
  induction hv with
  | leaf hv _ => exact merged_of_isLeaf hv
  | arr _ ih =>
    rw [merged, mergedItems_eq, List.map_congr_left ih, List.map_id']
  | obj hnodup _ ih =>
    rw [merged, mergedMembers_eq, map_merged_eq ih, OrderedMap.ofList_of_nodup hnodup]

/-- Merging members leaves no other values than merging each of them. -/
theorem isTidy_mergedMembers {members : List (String × Json)}
    (h : ∀ m ∈ members, m.2.merged.IsTidy) : ∀ m ∈ mergedMembers [] members, m.2.IsTidy := by
  rw [mergedMembers_eq]
  intro m hm
  obtain ⟨m', hm', rfl⟩ := List.mem_map.1 (OrderedMap.mem_of_mem_ofList hm)
  exact h m' hm'

/-- After merging no name is repeated. -/
theorem nodup_keys_mergedMembers (members : List (String × Json)) :
    ((mergedMembers [] members).map Prod.fst).Nodup :=
  mergedMembers_eq members ▸ OrderedMap.nodup_keys_ofList _

/-- **A plain document is tidy when its members are merged.** -/
theorem IsPlain.isTidy_merged {v : Json} (hv : v.IsPlain) : v.merged.IsTidy := by
  induction hv with
  | leaf hv h => rw [merged_of_isLeaf hv]; exact .leaf hv h
  | arr _ ih =>
    rw [merged, mergedItems_eq]
    exact .arr (List.forall_mem_map.2 ih)
  | @obj members _ ih =>
    rw [merged]
    exact .obj (nodup_keys_mergedMembers members) (isTidy_mergedMembers ih)

end TypedBindings.Json
