/-!
# Lists with one more member

* `Inserted`: a list is another one with one more member somewhere; the others keep their order.
* `Inserted.filter`, `Inserted.filterMap`: picking members out of such a list.
* `Inserted.mergeSort`: sorting it. A stable sort moves no two of the other members past each other.
* `filterMap_mergeSort`: picking members out before or after sorting is the same.
-/

namespace TypedBindings

/-- A list is another one with one more member somewhere. -/
def Inserted {α : Type} (x : α) (xs ys : List α) : Prop :=
  ∃ front back, xs = front ++ back ∧ ys = front ++ x :: back

namespace Inserted

variable {α β : Type} {x : α} {xs ys : List α}

/-- An element behind all others. -/
theorem last (x : α) (xs : List α) : Inserted x xs (xs ++ [x]) :=
  ⟨xs, [], (List.append_nil xs).symm, rfl⟩

/-- Lists that differ by one element, with the same elements behind them. -/
theorem append_right (h : Inserted x xs ys) (more : List α) :
    Inserted x (xs ++ more) (ys ++ more) := by
  obtain ⟨front, back, rfl, rfl⟩ := h
  exact ⟨front, back ++ more, List.append_assoc .., by rw [List.append_assoc, List.cons_append]⟩

/-- Lists that differ by one element, with the same elements in front of them. -/
theorem append_left (h : Inserted x xs ys) (more : List α) :
    Inserted x (more ++ xs) (more ++ ys) := by
  obtain ⟨front, back, rfl, rfl⟩ := h
  exact ⟨more ++ front, back, (List.append_assoc ..).symm, (List.append_assoc ..).symm⟩

theorem cons (h : Inserted x xs ys) (a : α) : Inserted x (a :: xs) (a :: ys) :=
  h.append_left [a]

/-! ## Picking members out -/

/-- The element has an image, which stands where the element stood. -/
theorem filterMap (h : Inserted x xs ys) {f : α → Option β} {b : β} (hx : f x = some b) :
    Inserted b (xs.filterMap f) (ys.filterMap f) := by
  obtain ⟨front, back, rfl, rfl⟩ := h
  refine ⟨front.filterMap f, back.filterMap f, List.filterMap_append, ?_⟩
  rw [List.filterMap_append, List.filterMap_cons, hx]

/-- An element without an image makes no difference. -/
theorem filterMap_eq (h : Inserted x xs ys) {f : α → Option β} (hx : f x = none) :
    ys.filterMap f = xs.filterMap f := by
  obtain ⟨front, back, rfl, rfl⟩ := h
  rw [List.filterMap_append, List.filterMap_append, List.filterMap_cons, hx]

theorem filter (h : Inserted x xs ys) {p : α → Bool} (hx : p x = true) :
    Inserted x (xs.filter p) (ys.filter p) := by
  obtain ⟨front, back, rfl, rfl⟩ := h
  refine ⟨front.filter p, back.filter p, List.filter_append .., ?_⟩
  rw [List.filter_append, List.filter_cons_of_pos hx]

/-- An element that is filtered out makes no difference. -/
theorem filter_eq (h : Inserted x xs ys) {p : α → Bool} (hx : p x = false) :
    ys.filter p = xs.filter p := by
  obtain ⟨front, back, rfl, rfl⟩ := h
  rw [List.filter_append, List.filter_append, List.filter_cons_of_neg (by simp [hx])]

/-! ## Sorting -/

section

variable {le : α → α → Bool} (trans : ∀ a b c, le a b = true → le b c = true → le a c = true)
  (total : ∀ a b, (le a b || le b a) = true)

include trans total

/-- A stable sort puts the first member of a list before the members that it may stand before. -/
theorem mergeSort_cons_eq (a : α) (l : List α) :
    (a :: l).mergeSort le =
      (l.mergeSort le).filter (fun b => !le a b) ++ a :: (l.mergeSort le).filter (le a) := by
  obtain ⟨front, back, hsort, hl, hfront⟩ := List.mergeSort_cons trans total a l
  have hback : ∀ b ∈ back, le a b = true := by
    have hsorted := List.pairwise_mergeSort trans total (a :: l)
    rw [hsort, List.pairwise_append, List.pairwise_cons] at hsorted
    exact hsorted.2.1.1
  have hnone : back.filter (fun b => !le a b) = [] :=
    List.filter_eq_nil_iff.2 fun b hb => by simp [hback b hb]
  have hfrontAll : front.filter (fun b => !le a b) = front :=
    List.filter_eq_self.2 fun b hb => by simpa using hfront b hb
  have hfrontNone : front.filter (le a) = [] :=
    List.filter_eq_nil_iff.2 fun b hb => by simpa using hfront b hb
  rw [hsort, hl, List.filter_append, List.filter_append, hnone, hfrontAll, hfrontNone,
    List.filter_eq_self.2 hback, List.append_nil, List.nil_append]

/-- **Sorting a list with one more member** gives the sorted list with that member in it. -/
theorem mergeSort (h : Inserted x xs ys) : Inserted x (xs.mergeSort le) (ys.mergeSort le) := by
  obtain ⟨front, back, rfl, rfl⟩ := h
  induction front with
  | nil =>
    obtain ⟨before, after, hsort, hback, -⟩ := List.mergeSort_cons trans total x back
    exact ⟨before, after, hback, hsort⟩
  | cons a rest ih =>
    rw [List.cons_append, List.cons_append, mergeSort_cons_eq trans total,
      mergeSort_cons_eq trans total]
    -- The new member goes to one side of `a`; the other side stays.
    cases hx : le a x with
    | true =>
      rw [ih.filter_eq (p := fun b => !le a b) (by simp [hx])]
      exact ((ih.filter hx).cons a).append_left _
    | false =>
      rw [ih.filter_eq hx]
      exact (ih.filter (p := fun b => !le a b) (by simp [hx])).append_right _

end

end Inserted

/-- **Picking members out of a sorted list** gives them sorted, if they are sorted alike. -/
theorem filterMap_mergeSort {α β : Type} {le : α → α → Bool} {le' : β → β → Bool}
    (trans : ∀ a b c, le a b = true → le b c = true → le a c = true)
    (total : ∀ a b, (le a b || le b a) = true)
    (trans' : ∀ a b c, le' a b = true → le' b c = true → le' a c = true)
    (total' : ∀ a b, (le' a b || le' b a) = true) {f : α → Option β}
    (hf : ∀ a b a' b', f a = some a' → f b = some b' → le' a' b' = le a b) (l : List α) :
    (l.mergeSort le).filterMap f = (l.filterMap f).mergeSort le' := by
  induction l with
  | nil => simp
  | cons a rest ih =>
    cases ha : f a with
    | none =>
      -- A member that is not picked comes to stand somewhere; around it nothing changes.
      obtain ⟨front, back, hsort, hrest, -⟩ := List.mergeSort_cons trans total a rest
      rw [List.filterMap_cons, ha, ← ih, hsort, hrest, List.filterMap_append,
        List.filterMap_append, List.filterMap_cons, ha]
    | some b =>
      have hpick : ∀ (p : β → Bool) (q : α → Bool), (∀ x y, f x = some y → p y = q x) →
          ((rest.mergeSort le).filter q).filterMap f = ((rest.mergeSort le).filterMap f).filter p := by
        intro p q hpq
        rw [List.filterMap_filter, List.filter_filterMap]
        refine congrFun (congrArg List.filterMap (funext fun x => ?_)) _
        cases hx : f x with
        | none => simp
        | some y => simp [Option.filter, hpq x y hx]
      rw [List.filterMap_cons, ha, Inserted.mergeSort_cons_eq trans total,
        Inserted.mergeSort_cons_eq trans' total', ← ih, List.filterMap_append, List.filterMap_cons,
        ha, hpick (fun y => !le' b y) _ fun x y hxy => by rw [hf a x b y ha hxy],
        hpick (le' b) _ fun x y hxy => hf a x b y ha hxy]

end TypedBindings
