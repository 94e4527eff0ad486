/-!
# Texts made of parts

Two lists of parts that begin one text are one list, as long as each part says where it ends and
something other than a separator ends the list.

* `intercalate_append_inj`: parts with a separator between them.
* `run_append_inj`: a part that ends where a class of characters does.
-/

namespace TypedBindings.Text

variable {α β : Type}

/-- Parts with a separator in front of each. -/
def trail (sep : List β) (parts : List (List β)) : List β := parts.flatMap (sep ++ ·)

theorem trail_cons (sep part : List β) (parts : List (List β)) :
    trail sep (part :: parts) = sep ++ (part ++ trail sep parts) := by
  unfold trail
  rw [List.flatMap_cons, List.append_assoc]

theorem intercalate_cons (sep part : List β) (parts : List (List β)) :
    sep.intercalate (part :: parts) = part ++ trail sep parts := by
  induction parts generalizing part with
  | nil => simp [trail]
  | cons next rest ih => rw [List.intercalate_cons_cons, ih, trail_cons, List.append_assoc]

theorem mem_intercalate {x : β} {sep : List β} {parts : List (List β)}
    (h : x ∈ sep.intercalate parts) : x ∈ sep ∨ ∃ part ∈ parts, x ∈ part := by
  cases parts with
  | nil => cases h
  | cons part rest =>
    rw [intercalate_cons, List.mem_append] at h
    rcases h with h | h
    · exact Or.inr ⟨part, List.mem_cons_self, h⟩
    · obtain ⟨next, hnext, hx⟩ := List.mem_flatMap.1 h
      rcases List.mem_append.1 hx with hx | hx
      · exact Or.inl hx
      · exact Or.inr ⟨next, List.mem_cons_of_mem _ hnext, hx⟩

section

variable {sep r r' : List β} {f : α → List β} {ends : List β → Bool} {xs xs' : List α}

/-- Parts with a separator in front of each are found again from what follows them. -/
theorem trail_append_inj (hr : ends r = true) (hr' : ends r' = true)
    (hsep : ∀ rest, ends (sep ++ rest) = true) (hne : ¬ sep <+: r) (hne' : ¬ sep <+: r')
    (hx : ∀ x ∈ xs, ∀ x' ∈ xs', ∀ s s', ends s = true → ends s' = true →
      f x ++ s = f x' ++ s' → x = x' ∧ s = s')
    (h : trail sep (xs.map f) ++ r = trail sep (xs'.map f) ++ r') : xs = xs' ∧ r = r' := by
  -- what stands behind a part ends it: either the next separator or the end of the list
  have hends : ∀ {ys : List α} {s : List β}, ends s = true →
      ends (trail sep (ys.map f) ++ s) = true := by
    intro ys s hs
    cases ys with
    | nil => exact hs
    | cons y rest =>
      rw [List.map_cons, trail_cons, List.append_assoc]
      exact hsep _
  induction xs generalizing xs' with
  | nil =>
    cases xs' with
    | nil => exact ⟨rfl, h⟩
    | cons x' rest' =>
      rw [List.map_cons, trail_cons, List.append_assoc] at h
      exact absurd ⟨_, h.symm⟩ hne
  | cons x rest ih =>
    cases xs' with
    | nil =>
      rw [List.map_cons, trail_cons, List.append_assoc] at h
      exact absurd ⟨_, h⟩ hne'
    | cons x' rest' =>
      rw [List.map_cons, List.map_cons, trail_cons, trail_cons, List.append_assoc,
        List.append_assoc, List.append_assoc, List.append_assoc] at h
      have hparts := List.append_cancel_left h
      obtain ⟨hfirst, hrest⟩ := hx x List.mem_cons_self x' List.mem_cons_self _ _ (hends hr)
        (hends hr') hparts
      obtain ⟨htail, hend⟩ := ih (fun y hy y' hy' => hx y (List.mem_cons_of_mem _ hy) y'
        (List.mem_cons_of_mem _ hy')) hrest
      exact ⟨by rw [hfirst, htail], hend⟩

/-- **A list of parts is found again from its text**: no part begins like what ends the other list,
and what ends a list is no separator. -/
theorem intercalate_append_inj (hr : ends r = true) (hr' : ends r' = true)
    (hsep : ∀ rest, ends (sep ++ rest) = true) (hne : ¬ sep <+: r) (hne' : ¬ sep <+: r')
    (hbegin : ∀ x ∈ xs, ∀ s, f x ++ s ≠ r') (hbegin' : ∀ x' ∈ xs', ∀ s, f x' ++ s ≠ r)
    (hx : ∀ x ∈ xs, ∀ x' ∈ xs', ∀ s s', ends s = true → ends s' = true →
      f x ++ s = f x' ++ s' → x = x' ∧ s = s')
    (h : sep.intercalate (xs.map f) ++ r = sep.intercalate (xs'.map f) ++ r') :
    xs = xs' ∧ r = r' := by
  cases xs with
  | nil =>
    cases xs' with
    | nil => exact ⟨rfl, h⟩
    | cons x' rest' =>
      rw [List.map_cons, intercalate_cons, List.append_assoc] at h
      exact absurd h.symm (hbegin' x' List.mem_cons_self _)
  | cons x rest =>
    cases xs' with
    | nil =>
      rw [List.map_cons, intercalate_cons, List.append_assoc] at h
      exact absurd h (hbegin x List.mem_cons_self _)
    | cons x' rest' =>
      have htrail : trail sep ((x :: rest).map f) ++ r = trail sep ((x' :: rest').map f) ++ r' := by
        rw [List.map_cons, List.map_cons, intercalate_cons, intercalate_cons] at h
        rw [List.map_cons, List.map_cons, trail_cons, trail_cons, List.append_assoc sep,
          List.append_assoc sep, h]
      exact trail_append_inj hr hr' hsep hne hne' hx htrail

end

/-- Runs of characters of a class are one if they begin one text and end where the class does. -/
theorem run_append_inj {isPart : α → Bool} {xs xs' r r' : List α}
    (hxs : ∀ x ∈ xs, isPart x = true) (hxs' : ∀ x ∈ xs', isPart x = true)
    (hr : r.head?.all (!isPart ·) = true) (hr' : r'.head?.all (!isPart ·) = true)
    (h : xs ++ r = xs' ++ r') : xs = xs' ∧ r = r' := by
  have hend : ∀ s : List α, s.head?.all (!isPart ·) = true → s.takeWhile isPart = [] := by
    intro s hs
    cases s with
    | nil => rfl
    | cons c rest =>
      have hc : isPart c = false := by simpa using hs
      rw [List.takeWhile_cons, hc]
      rfl
  have htake := congrArg (List.takeWhile isPart) h
  rw [List.takeWhile_append_of_pos hxs, List.takeWhile_append_of_pos hxs', hend r hr, hend r' hr',
    List.append_nil, List.append_nil] at htake
  subst htake
  exact ⟨rfl, List.append_cancel_left h⟩

end TypedBindings.Text
