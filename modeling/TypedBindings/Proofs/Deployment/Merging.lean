import TypedBindings.Deployment.Schema
import Mathlib.Data.List.Nodup

/-!
# Merged ids partition the union of the lists

`distinct` keeps each member of a list once, at the place where it occurs first; merged ids are
two such lists.

* `mem_distinct`, `nodup_distinct`, `distinct_ordered`: what `distinct` keeps, how often and in
  which order.
* `MergedIds.mem_required`, `MergedIds.mem_optional`: an id is required if every list has it, and
  optional if some list has it and another one does not.
* `distinct_append_repeated`, `MergedIds.merge_append_repeated`: what has come before changes
  nothing when it comes again.
* `MergedIds.merge_partition`: the two lists cover the ids of all lists once, each in the order of
  first occurrence.
-/

namespace TypedBindings

/-- The order in which ids occur first in a list. -/
def FirstBefore (ids : List String) (a b : String) : Prop := ids.idxOf a < ids.idxOf b

/-! ## Lists without repetitions -/

/-- Leaving repetitions out loses no element. -/
theorem mem_distinct {xs : List String} {a : String} : a ∈ distinct xs ↔ a ∈ xs := by
  induction xs with
  | nil => simp [distinct]
  | cons x rest ih =>
    rw [distinct, List.mem_cons, List.mem_cons, List.mem_filter, ih]
    by_cases h : a = x <;> simp [h]

theorem nodup_distinct (xs : List String) : (distinct xs).Nodup := by
  induction xs with
  | nil => exact List.nodup_nil
  | cons x rest ih =>
    rw [distinct, List.nodup_cons]
    exact ⟨by simp, ih.filter _⟩

/-- Repetitions can be left out before or after filtering. -/
theorem distinct_filter (keep : String → Bool) (xs : List String) :
    distinct (xs.filter keep) = (distinct xs).filter keep := by
  induction xs with
  | nil => rfl
  | cons x rest ih =>
    by_cases hx : keep x
    · rw [List.filter_cons_of_pos hx, distinct, distinct, List.filter_cons_of_pos hx, ih,
        List.filter_filter, List.filter_filter]
      simp only [Bool.and_comm]
    · -- `x` is rejected, so the occurrences of `x` that `distinct` drops are rejected anyway
      have hdrop : ∀ a, (keep a && decide (a ≠ x)) = keep a := by
        intro a
        by_cases ha : a = x
        · subst ha; simp [hx]
        · simp [ha]
      rw [List.filter_cons_of_neg hx, distinct, List.filter_cons_of_neg hx, ih,
        List.filter_filter]
      simp only [hdrop]

/-- Of a list that comes after another one, what the first has already is dropped. -/
theorem distinct_append (xs ys : List String) :
    distinct (xs ++ ys) = distinct xs ++ (distinct ys).filter (· ∉ xs) := by
  induction xs with
  | nil => simp [distinct]
  | cons x rest ih =>
    rw [List.cons_append, distinct, distinct, ih, List.filter_append, List.filter_filter,
      List.cons_append]
    congr 2
    refine List.filter_congr fun a _ => ?_
    simp only [List.mem_cons, not_or, Bool.decide_and]

/-- What has occurred before changes nothing. -/
theorem distinct_append_repeated {xs block : List String} (h : ∀ a ∈ block, a ∈ xs)
    (ys : List String) : distinct (xs ++ block ++ ys) = distinct (xs ++ ys) := by
  have hblock : (distinct block).filter (· ∉ xs) = [] :=
    List.filter_eq_nil_iff.2 fun a ha => by simpa using h a (mem_distinct.1 ha)
  have hmem : ∀ a, a ∈ xs ++ block ↔ a ∈ xs := fun a => by
    rw [List.mem_append]; exact ⟨fun ha => ha.elim id (h a), Or.inl⟩
  rw [distinct_append, distinct_append xs block, hblock, List.append_nil, distinct_append xs ys]
  simp only [hmem]

theorem distinct_sublist (xs : List String) : (distinct xs).Sublist xs := by
  induction xs with
  | nil => exact .slnil
  | cons x rest ih => exact (List.filter_sublist.trans ih).cons_cons x

theorem distinct_of_nodup {xs : List String} (h : xs.Nodup) : distinct xs = xs := by
  induction xs with
  | nil => rfl
  | cons x rest ih =>
    rw [List.nodup_cons] at h
    have hkept : rest.filter (· ≠ x) = rest :=
      List.filter_eq_self.2 fun a ha => by simpa using fun heq : a = x => h.1 (heq ▸ ha)
    rw [distinct, ih h.2, hkept]

/-- The members that are kept stand in the order of first occurrence. -/
theorem distinct_ordered (xs : List String) : (distinct xs).Pairwise (FirstBefore xs) := by
  induction xs with
  | nil => exact List.Pairwise.nil
  | cons x rest ih =>
    have hshift : ∀ a, a ≠ x → (x :: rest).idxOf a = rest.idxOf a + 1 :=
      fun a ha => List.idxOf_cons_ne rest ha.symm
    rw [distinct, List.pairwise_cons]
    constructor
    · intro a ha
      have hne : a ≠ x := by simpa using (List.mem_filter.1 ha).2
      unfold FirstBefore
      rw [List.idxOf_cons_self, hshift a hne]; omega
    · refine (ih.filter _).imp_of_mem ?_
      intro a b ha hb hab
      have hna : a ≠ x := by simpa using (List.mem_filter.1 ha).2
      have hnb : b ≠ x := by simpa using (List.mem_filter.1 hb).2
      unfold FirstBefore at hab ⊢
      rw [hshift a hna, hshift b hnb]; omega

namespace MergedIds

variable {sets : List (List String)} {id : String}

/-- Required are the ids that are in every set, if there is a set at all. -/
theorem mem_required : id ∈ (merge sets).required ↔ sets ≠ [] ∧ ∀ set ∈ sets, id ∈ set := by
  cases sets with
  | nil => simp [merge]
  | cons first rest => simp [merge, mem_distinct]

/-- The optional ids are the ids of all lists that are not required. -/
theorem optional_eq (sets : List (List String)) :
    (merge sets).optional =
      (distinct sets.flatten).filter fun id => !(merge sets).required.contains id := by
  cases sets <;> rfl

/-- Optional are the ids that are in one set and not in another. -/
theorem mem_optional :
    id ∈ (merge sets).optional ↔ (∃ set ∈ sets, id ∈ set) ∧ ∃ set ∈ sets, id ∉ set := by
  rw [optional_eq, List.mem_filter, mem_distinct, List.mem_flatten]
  simp only [Bool.not_eq_true', List.contains_eq_mem, decide_eq_false_iff_not, mem_required]
  constructor
  · rintro ⟨⟨set, hset, hid⟩, hnot⟩
    refine ⟨⟨set, hset, hid⟩, ?_⟩
    by_contra hall
    push Not at hall
    exact hnot ⟨List.ne_nil_of_mem hset, hall⟩
  · rintro ⟨hsome, other, hother, hid⟩
    exact ⟨hsome, fun h => hid (h.2 other hother)⟩

/-- What is required and what is optional depends on the lists as a set. -/
theorem mem_required_congr {sets' : List (List String)} (h : ∀ set, set ∈ sets ↔ set ∈ sets') :
    id ∈ (merge sets).required ↔ id ∈ (merge sets').required := by
  have hnil : sets = [] ↔ sets' = [] := by simp only [List.eq_nil_iff_forall_not_mem, h]
  simp only [mem_required, ne_eq, hnil, h]

/-- Which ids are optional depends neither on the order of the sets nor on repeated ones. -/
theorem mem_optional_congr {sets' : List (List String)} (h : ∀ set, set ∈ sets ↔ set ∈ sets') :
    id ∈ (merge sets).optional ↔ id ∈ (merge sets').optional := by
  simp only [mem_optional, h]

/-- Lists that have come before change nothing. -/
theorem merge_append_repeated {block : List (List String)} (h : ∀ set ∈ block, set ∈ sets)
    (after : List (List String)) : merge (sets ++ block ++ after) = merge (sets ++ after) := by
  have hflat : ∀ a ∈ block.flatten, a ∈ sets.flatten := by
    intro a ha
    obtain ⟨set, hset, ha⟩ := List.mem_flatten.1 ha
    exact List.mem_flatten.2 ⟨set, h set hset, ha⟩
  have hunion : distinct (sets ++ block ++ after).flatten = distinct (sets ++ after).flatten := by
    simp only [List.flatten_append]
    exact distinct_append_repeated hflat _
  have hrequired : (merge (sets ++ block ++ after)).required =
      (merge (sets ++ after)).required := by
    cases sets with
    | nil =>
      cases block with
      | nil => rfl
      | cons set rest => exact absurd (h set List.mem_cons_self) List.not_mem_nil
    | cons first rest =>
      -- Both orders are those of `first`, and an id of `first` is in every list of either.
      simp only [List.cons_append, merge]
      congr 1
      refine List.filter_congr fun id hid => ?_
      rw [List.append_assoc, List.all_append, List.all_append, List.all_append]
      have hblock : (rest.all fun set => set.contains id) = true →
          (block.all fun set => set.contains id) = true := by
        simp only [List.all_eq_true, List.contains_iff_mem]
        intro hrest set hset
        rcases List.mem_cons.1 (h set hset) with rfl | hset
        · exact hid
        · exact hrest set hset
      cases hr : rest.all fun set => set.contains id with
      | false => rfl
      | true => rw [hblock hr, Bool.true_and]
  have hoptional : (merge (sets ++ block ++ after)).optional =
      (merge (sets ++ after)).optional := by
    rw [optional_eq, optional_eq, hunion, hrequired]
  calc merge (sets ++ block ++ after)
      = ⟨(merge (sets ++ block ++ after)).required, (merge (sets ++ block ++ after)).optional⟩ := rfl
    _ = merge (sets ++ after) := by rw [hrequired, hoptional]

theorem nodup_required (sets : List (List String)) : (merge sets).required.Nodup := by
  cases sets with
  | nil => exact List.nodup_nil
  | cons first rest => exact nodup_distinct _

theorem nodup_optional (sets : List (List String)) : (merge sets).optional.Nodup := by
  rw [optional_eq]; exact (nodup_distinct _).filter _

/-- No id is both. -/
theorem disjoint_required_optional (sets : List (List String)) :
    (merge sets).required.Disjoint (merge sets).optional := by
  intro id hreq hopt
  obtain ⟨-, other, hother, hid⟩ := mem_optional.1 hopt
  exact hid ((mem_required.1 hreq).2 other hother)

theorem nodup_all (sets : List (List String)) : (merge sets).all.Nodup :=
  (nodup_required sets).append (nodup_optional sets) (disjoint_required_optional sets)

/-- The required and the optional ids together are the ids of all lists. -/
theorem mem_all : id ∈ (merge sets).all ↔ ∃ set ∈ sets, id ∈ set := by
  unfold all
  rw [List.mem_append, mem_required, mem_optional]
  constructor
  · rintro (⟨hne, hall⟩ | ⟨hsome, -⟩)
    · obtain ⟨set, hset⟩ := List.exists_mem_of_ne_nil sets hne
      exact ⟨set, hset, hall set hset⟩
    · exact hsome
  · rintro ⟨set, hset, hid⟩
    by_cases hall : ∀ other ∈ sets, id ∈ other
    · exact Or.inl ⟨List.ne_nil_of_mem hset, hall⟩
    · push Not at hall
      exact Or.inr ⟨⟨set, hset, hid⟩, hall⟩

/-- Required ids stand as in the first set. -/
theorem required_ordered (sets : List (List String)) :
    (merge sets).required.Pairwise (FirstBefore (sets.headD [])) := by
  cases sets with
  | nil => exact List.Pairwise.nil
  | cons first rest =>
    simp only [merge, distinct_filter, List.headD_cons]
    exact (distinct_ordered first).filter _

/-- Optional ids stand as they were first seen. -/
theorem optional_ordered (sets : List (List String)) :
    (merge sets).optional.Pairwise (FirstBefore sets.flatten) := by
  rw [optional_eq]; exact (distinct_ordered _).filter _

/-- **Merging partitions the ids of all lists.** An id is required if there are lists and every
one has it, optional if some list has it and some list does not. No id stands twice, so the ids of
all lists are covered once. Required ids stand in the order of the first list, optional ids in that
of all lists one after another. -/
theorem merge_partition (sets : List (List String)) :
    (∀ id, id ∈ (merge sets).required ↔ sets ≠ [] ∧ ∀ set ∈ sets, id ∈ set) ∧
    (∀ id, id ∈ (merge sets).optional ↔ (∃ set ∈ sets, id ∈ set) ∧ ∃ set ∈ sets, id ∉ set) ∧
    (merge sets).required.Nodup ∧ (merge sets).optional.Nodup ∧
    (merge sets).required.Disjoint (merge sets).optional ∧
    (∀ id, (merge sets).all.count id = if ∃ set ∈ sets, id ∈ set then 1 else 0) ∧
    (merge sets).required.Pairwise (FirstBefore (sets.headD [])) ∧
    (merge sets).optional.Pairwise (FirstBefore sets.flatten) := by
  refine ⟨fun _ => mem_required, fun _ => mem_optional, nodup_required sets, nodup_optional sets,
    disjoint_required_optional sets, ?_, required_ordered sets, optional_ordered sets⟩
  intro id
  split
  · next h => exact List.count_eq_one_of_mem (nodup_all sets) (mem_all.2 h)
  · next h => exact List.count_eq_zero_of_not_mem fun hid => h (mem_all.1 hid)

end MergedIds

end TypedBindings
