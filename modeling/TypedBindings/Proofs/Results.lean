import Mathlib.Data.List.Forall2

/-!
# Results of steps

* `bind_eq_ok_iff`, `map_eq_ok_iff`, `mapError_eq_ok_iff`: a step that is made of others gives a
  result exactly if they do.
* `mapM_eq_ok_iff`: so does a step for each element of a list.
* `mapError_eq_error_iff`: a step fails as the one it is made of does.
-/

namespace TypedBindings

variable {ε ε' α β : Type}

/-- A step after another one succeeds with the other's result. -/
theorem bind_eq_ok_iff {x : Except ε α} {f : α → Except ε β} {b : β} :
    x >>= f = .ok b ↔ ∃ a, x = .ok a ∧ f a = .ok b := by
  cases x with
  | error e => exact iff_of_false (fun h => by cases h) (by rintro ⟨_, h, -⟩; cases h)
  | ok a =>
    constructor
    · intro h; exact ⟨a, rfl, h⟩
    · rintro ⟨_, ⟨⟩, h⟩; exact h

theorem exists_of_bind_eq_ok {x : Except ε α} {f : α → Except ε β} {b : β}
    (h : x >>= f = .ok b) : ∃ a, x = .ok a ∧ f a = .ok b := bind_eq_ok_iff.1 h

theorem map_eq_ok_iff {x : Except ε α} {f : α → β} {b : β} :
    x.map f = .ok b ↔ ∃ a, x = .ok a ∧ f a = b := by
  cases x <;> simp [Except.map]

/-- Naming an error differently does not touch a result. -/
theorem mapError_eq_ok_iff {x : Except ε α} {f : ε → ε'} {a : α} :
    x.mapError f = .ok a ↔ x = .ok a := by
  cases x with
  | error e => exact iff_of_false (fun h => by cases h) (fun h => by cases h)
  | ok b => exact ⟨fun h => by cases h; rfl, fun h => by cases h; rfl⟩

/-- An error that was named differently comes from one by its old name. -/
theorem mapError_eq_error_iff {x : Except ε α} {f : ε → ε'} {e' : ε'} :
    x.mapError f = .error e' ↔ ∃ e, x = .error e ∧ f e = e' := by
  cases x <;> simp [Except.mapError]

/-- **A step for each element** gives a list of results exactly if each of them is the result of its
element. -/
theorem mapM_eq_ok_iff {f : α → Except ε β} {as : List α} {bs : List β} :
    as.mapM f = .ok bs ↔ List.Forall₂ (fun a b => f a = .ok b) as bs := by
  induction as generalizing bs with
  | nil =>
    rw [List.mapM_nil, List.forall₂_nil_left_iff]
    exact ⟨fun h => by cases h; rfl, fun h => by rw [h]; rfl⟩
  | cons a rest ih =>
    rw [List.mapM_cons, List.forall₂_cons_left_iff]
    constructor
    · intro h
      obtain ⟨b, hb, h⟩ := exists_of_bind_eq_ok h
      obtain ⟨bs', hbs', h⟩ := exists_of_bind_eq_ok h
      cases h
      exact ⟨b, bs', hb, ih.1 hbs', rfl⟩
    · rintro ⟨b, bs', hb, hrest, rfl⟩
      rw [hb, ih.2 hrest]
      rfl

/-- What is mapped one by one keeps what each step keeps. -/
theorem map_eq_of_mapM {γ : Type} {f : α → Except ε β} {g : α → γ} {k : β → γ}
    (hf : ∀ a b, f a = .ok b → k b = g a) {as : List α} {bs : List β} (h : as.mapM f = .ok bs) :
    bs.map k = as.map g := by
  have hkept : List.Forall₂ (fun a b => g a = k b) as bs :=
    (mapM_eq_ok_iff.1 h).imp fun a b hb => (hf a b hb).symm
  have hmapped : List.Forall₂ Eq (as.map g) (bs.map k) :=
    List.forall₂_map_left_iff.2 (List.forall₂_map_right_iff.2 hkept)
  rw [List.forall₂_eq_eq_eq] at hmapped
  exact hmapped.symm

end TypedBindings
