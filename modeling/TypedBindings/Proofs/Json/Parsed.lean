import TypedBindings.Proofs.Json.Leaves

/-!
# The integers of a text

A number that does not fit 64 bits is no integer, so what was read from a text without reals is
plain: it can be written, and its text read.

* `fitsWord_readValue`: every integer that is read fits 64 bits, wherever the text breaks off.
* `isPlain_of_parse?`: a document without reals is plain.
-/

namespace TypedBindings.Json

open Text

/-- A leaf that fits 64 bits if it is an integer. -/
def IsWordLeaf (v : Json) : Prop := ∀ n, v = .int n → FitsWord n

/-- A document whose integers fit 64 bits. -/
def HasWords : Json → Prop := AllLeaves IsWordLeaf

theorem hasWords_defect (kind : Defect) : HasWords (.defect kind) :=
  .leaf rfl fun _ h => by cases h

theorem hasWords_real (literal : String) : HasWords (.real literal) :=
  .leaf rfl fun _ h => by cases h

theorem hasWords_int {n : Int} (h : FitsWord n) : HasWords (.int n) :=
  .leaf rfl fun m hm => by cases hm; exact h

/-- A number is an integer of 64 bits, or a real by its text. -/
theorem hasWords_value (n : Numeral) (literal : String) : (n.value literal).HasWords := by
  unfold Numeral.value
  dsimp only
  split
  · next h =>
    simp only [Bool.and_eq_true, decide_eq_true_eq] at h
    exact hasWords_int ⟨by omega, by omega⟩
  · split
    · next h =>
      simp only [Bool.and_eq_true, decide_eq_true_eq] at h
      exact hasWords_int ⟨by omega, by omega⟩
    · split
      · exact hasWords_real literal
      · exact hasWords_defect _

theorem hasWords_readNumber (cs : List Char) : (readNumber cs).1.HasWords := by
  unfold readNumber
  split
  · exact hasWords_defect _
  · exact hasWords_value _ _

/-- A list or object with no room for it becomes a defect. -/
theorem hasWords_enclose {α : Type} {room : Nat} {make : α → Json} {reading : Reading α}
    (h : (make reading.1).HasWords) : (enclose room make reading).1.HasWords := by
  obtain ⟨parts, rest⟩ := reading
  rw [enclose]
  split
  · exact hasWords_defect _
  · exact h

/-- A defect of a member's name may take the place of its value. -/
theorem hasWords_member (name : Option String) {v : Json} (h : v.HasWords) :
    (member name v).2.HasWords := by
  unfold member
  split
  · exact h
  · dsimp only
    split
    · exact hasWords_defect _
    · exact h

section

variable {fuel : Nat}

/-- One more step of the reader, for the parts of a list or object that were read before. -/
theorem hasWords_readValue_succ
    (hitems : ∀ room cs, ∀ v ∈ (readItems fuel room cs).1, v.HasWords)
    (hmembers : ∀ room cs, ∀ m ∈ (readMembers fuel room cs).1, m.2.HasWords) (room : Nat)
    (cs : List Char) : (readValue (fuel + 1) room cs).1.HasWords := by
  rw [readValue]
  split
  · exact .leaf rfl fun _ h => by cases h
  · exact .leaf rfl fun _ h => by cases h
  · exact .leaf rfl fun _ h => by cases h
  · split
    · exact .leaf rfl fun _ h => by cases h
    · exact hasWords_defect _
    · exact hasWords_defect _
  · split
    · exact hasWords_enclose (.arr (List.forall_mem_nil _))
    · exact hasWords_enclose (.arr (hitems _ _))
  · split
    · exact hasWords_enclose (.obj (List.forall_mem_nil _))
    · exact hasWords_enclose (.obj (hmembers _ _))
  · exact hasWords_readNumber _

theorem hasWords_readItems_succ (hvalue : ∀ room cs, (readValue fuel room cs).1.HasWords)
    (hitems : ∀ room cs, ∀ v ∈ (readItems fuel room cs).1, v.HasWords) (room : Nat)
    (cs : List Char) : ∀ v ∈ (readItems (fuel + 1) room cs).1, v.HasWords := by
  have hv := hvalue room cs
  rw [readItems]
  split
  · next heq => rw [heq] at hv; exact List.forall_mem_singleton.2 hv
  · next heq =>
    rw [heq] at hv
    split
    · exact List.forall_mem_singleton.2 hv
    · exact List.forall_mem_cons.2 ⟨hv, hitems _ _⟩
    · exact List.forall_mem_cons.2 ⟨hv, List.forall_mem_singleton.2 (hasWords_defect _)⟩

theorem hasWords_readMembers_succ (hvalue : ∀ room cs, (readValue fuel room cs).1.HasWords)
    (hmembers : ∀ room cs, ∀ m ∈ (readMembers fuel room cs).1, m.2.HasWords) (room : Nat)
    (cs : List Char) : ∀ m ∈ (readMembers (fuel + 1) room cs).1, m.2.HasWords := by
  rw [readMembers]
  split
  · exact List.forall_mem_singleton.2 (hasWords_defect _)
  · split
    · next rest _ =>
      have hv := hvalue room rest
      split
      · next heq => rw [heq] at hv; exact List.forall_mem_singleton.2 (hasWords_member _ hv)
      · next heq =>
        rw [heq] at hv
        split
        · exact List.forall_mem_singleton.2 (hasWords_member _ hv)
        · exact List.forall_mem_cons.2 ⟨hasWords_member _ hv, hmembers _ _⟩
        · exact List.forall_mem_cons.2
            ⟨hasWords_member _ hv, List.forall_mem_singleton.2 (hasWords_defect _)⟩
    · exact List.forall_mem_singleton.2 (hasWords_member _ (hasWords_defect _))

end

/-- **Every integer that is read fits 64 bits.** -/
theorem hasWords_read (fuel : Nat) :
    (∀ room cs, (readValue fuel room cs).1.HasWords) ∧
      (∀ room cs, ∀ v ∈ (readItems fuel room cs).1, v.HasWords) ∧
      ∀ room cs, ∀ m ∈ (readMembers fuel room cs).1, m.2.HasWords := by
  induction fuel with
  | zero =>
    refine ⟨fun _ _ => hasWords_defect _, fun _ _ => ?_, fun _ _ => ?_⟩
    · exact List.forall_mem_singleton.2 (hasWords_defect _)
    · exact List.forall_mem_singleton.2 (hasWords_defect _)
  | succ fuel ih =>
    obtain ⟨hvalue, hitems, hmembers⟩ := ih
    exact ⟨hasWords_readValue_succ hitems hmembers, hasWords_readItems_succ hvalue hitems,
      hasWords_readMembers_succ hvalue hmembers⟩

/-- Whatever a text is, its integers fit 64 bits. -/
theorem hasWords_ofText (text : String) (limit : Nat) : (ofText text limit).1.HasWords := by
  have hread := (hasWords_read (2 * text.toList.length + 2)).1 limit text.toList
  unfold ofText
  dsimp only
  split
  · next heq => rw [heq] at hread; exact hread
  · next heq => rw [heq] at hread; exact hread

/-- A text that is parsed has been read without a defect. -/
theorem parse?_eq_some {text : String} {limit : Nat} {v : Json} (h : parse? text limit = some v) :
    (ofText text limit).1 = v ∧ v.isSound = true := by
  unfold parse? at h
  dsimp only at h
  split at h
  · next hwhole => cases h; exact ⟨rfl, (Bool.and_eq_true_iff.1 hwhole).2⟩
  · cases h

/-- **A document without reals is plain.** -/
theorem isPlain_of_parse? {text : String} {limit : Nat} {v : Json}
    (h : parse? text limit = some v) (hreals : v.HasNoReals) : v.IsPlain := by
  obtain ⟨rfl, hsound⟩ := parse?_eq_some h
  -- leaf by leaf: what is no word was excluded as a real or as a defect
  refine (((hasWords_ofText text limit).and hreals).and (isSound_iff.1 hsound)).imp ?_
  rintro w ⟨⟨hword, hreal⟩, hdefect⟩
  cases w with
  | int n => exact hword n rfl
  | real literal => exact absurd rfl (hreal literal)
  | defect kind => exact absurd rfl (hdefect kind)
  | _ => trivial

end TypedBindings.Json
