import Mathlib.Data.List.Nodup
import TypedBindings.Artifact.Lowering
import TypedBindings.Proofs.Results

/-!
# Names that lowering keeps apart

* `checkUnique_eq_ok_iff`: the check of names passes exactly if they are pairwise distinct.
* `Contract.nodup_functions_of_lower`: the functions of an interface have distinct names.
-/

namespace TypedBindings.Artifact

/-! ## Names -/

theorem firstRepeated?_eq_none_iff {seen names : List String} :
    firstRepeated? seen names = none ↔ names.Nodup ∧ ∀ name ∈ names, name ∉ seen := by
  induction names generalizing seen with
  | nil => simp [firstRepeated?]
  | cons name rest ih =>
    rw [firstRepeated?]
    by_cases hseen : name ∈ seen
    · rw [if_pos hseen]
      refine iff_of_false (fun h => by cases h) ?_
      rintro ⟨-, hfresh⟩
      exact hfresh name List.mem_cons_self hseen
    · rw [if_neg hseen, ih, List.nodup_cons]
      constructor
      · rintro ⟨hrest, hfresh⟩
        refine ⟨⟨fun hmem => hfresh name hmem List.mem_cons_self, hrest⟩, ?_⟩
        intro other hother
        rcases List.mem_cons.1 hother with rfl | hother
        · exact hseen
        · exact fun hmem => hfresh other hother (List.mem_cons_of_mem _ hmem)
      · rintro ⟨⟨hname, hrest⟩, hfresh⟩
        refine ⟨hrest, fun other hother hmem => ?_⟩
        rcases List.mem_cons.1 hmem with rfl | hmem
        · exact hname hother
        · exact hfresh other (List.mem_cons_of_mem _ hother) hmem

/-- **The check of names** passes exactly if they are pairwise distinct. -/
theorem checkUnique_eq_ok_iff {owner : String} {names : List String} {r : Unit} :
    checkUnique owner names = .ok r ↔ names.Nodup := by
  have hnone : firstRepeated? [] names = none ↔ names.Nodup := by
    rw [firstRepeated?_eq_none_iff]
    exact and_iff_left fun _ _ => List.not_mem_nil
  unfold checkUnique
  rw [← hnone]
  cases firstRepeated? [] names <;> simp

theorem Function.name_of_lower {owner : String} {f : Function} {g : Abi.Function}
    (h : f.lower owner = .ok g) : g.name = f.name := by
  unfold Function.lower at h
  obtain ⟨params, -, h⟩ := exists_of_bind_eq_ok h
  obtain ⟨returns, -, h⟩ := exists_of_bind_eq_ok h
  cases h
  rfl

/-- A contract's interface has the name of the contract. -/
theorem Contract.name_of_lower {a : Contract} {c : Abi.Contract} (h : a.lower = .ok c) :
    c.name = a.name := by
  unfold Contract.lower at h
  obtain ⟨fields, -, h⟩ := exists_of_bind_eq_ok h
  obtain ⟨events, -, h⟩ := exists_of_bind_eq_ok h
  obtain ⟨_, -, h⟩ := exists_of_bind_eq_ok h
  obtain ⟨functions, -, h⟩ := exists_of_bind_eq_ok h
  cases h
  rfl

/-- A script's interface has the name of the script. -/
theorem Script.name_of_lower {a : Script} {s : Abi.Script} (h : a.lower = .ok s) :
    s.name = a.name := by
  unfold Script.lower at h
  obtain ⟨fields, -, h⟩ := exists_of_bind_eq_ok h
  cases h
  rfl

/-- **The functions of an interface have distinct names.** -/
theorem Contract.nodup_functions_of_lower {a : Contract} {c : Abi.Contract}
    (h : a.lower = .ok c) : (c.functions.map Abi.Function.name).Nodup := by
  unfold Contract.lower at h
  obtain ⟨fields, -, h⟩ := exists_of_bind_eq_ok h
  obtain ⟨events, -, h⟩ := exists_of_bind_eq_ok h
  obtain ⟨_, hunique, h⟩ := exists_of_bind_eq_ok h
  obtain ⟨functions, hfunctions, h⟩ := exists_of_bind_eq_ok h
  cases h
  rw [map_eq_of_mapM (fun _ _ => Function.name_of_lower) hfunctions]
  exact checkUnique_eq_ok_iff.1 hunique

end TypedBindings.Artifact
