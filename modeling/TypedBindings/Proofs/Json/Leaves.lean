import TypedBindings.Json.Basic
import TypedBindings.Json.Parser

/-!
# What all leaves of a document have in common

* `AllLeaves`: every value of a document that is no array and no object has a property.
* `isSound_iff`: a document is sound if no leaf is a defect.
* `IsPlain`: a document whose numbers are integers of 64 bits, and that has no defect.
* `depth`: how deeply arrays and objects nest.
-/

namespace TypedBindings.Json

/-- A value that is no array and no object. -/
def isLeaf : Json → Bool
  | .arr _ => false
  | .obj _ => false
  | _ => true

/-- Every leaf of a document has a property. -/
inductive AllLeaves (p : Json → Prop) : Json → Prop
  | leaf {v : Json} (hv : v.isLeaf = true) (h : p v) : AllLeaves p v
  | arr {items : List Json} (h : ∀ v ∈ items, AllLeaves p v) : AllLeaves p (.arr items)
  | obj {members : List (String × Json)} (h : ∀ m ∈ members, AllLeaves p m.2) :
      AllLeaves p (.obj members)

section

variable {p q : Json → Prop}

/-- A value without parts is a leaf itself. -/
theorem AllLeaves.of_leaf {v : Json} (h : AllLeaves p v) (hv : v.isLeaf = true) : p v := by
  cases h with
  | leaf _ h => exact h
  | arr _ => cases hv
  | obj _ => cases hv

theorem AllLeaves.items {items : List Json} (h : AllLeaves p (.arr items)) :
    ∀ v ∈ items, AllLeaves p v := by
  cases h with
  | leaf hv _ => cases hv
  | arr h => exact h

theorem AllLeaves.members {members : List (String × Json)} (h : AllLeaves p (.obj members)) :
    ∀ m ∈ members, AllLeaves p m.2 := by
  cases h with
  | leaf hv _ => cases hv
  | obj h => exact h

/-- Two properties that all leaves have. -/
theorem AllLeaves.and {v : Json} (hp : AllLeaves p v) (hq : AllLeaves q v) :
    AllLeaves (fun v => p v ∧ q v) v := by
  induction hp with
  | leaf hv h => exact .leaf hv ⟨h, hq.of_leaf hv⟩
  | arr _ ih => exact .arr fun v hv => ih v hv (hq.items v hv)
  | obj _ ih => exact .obj fun m hm => ih m hm (hq.members m hm)

theorem AllLeaves.imp {v : Json} (hp : AllLeaves p v) (h : ∀ v, p v → q v) : AllLeaves q v := by
  induction hp with
  | leaf hv hp => exact .leaf hv (h _ hp)
  | arr _ ih => exact .arr ih
  | obj _ ih => exact .obj ih

end

/-! ## Plain documents -/

/-- An integer that a number of a text can be. -/
def FitsWord (n : Int) : Prop := -(Text.wordSize / 2 : Nat) ≤ n ∧ n < Text.wordSize

/-- A leaf that is no real and no defect, and fits 64 bits if it is an integer. -/
def IsPlainLeaf : Json → Prop
  | .int n => FitsWord n
  | .real _ => False
  | .defect _ => False
  | _ => True

/-- A document whose numbers are integers of 64 bits, and that has no defect. -/
def IsPlain : Json → Prop := AllLeaves IsPlainLeaf

@[simp] theorem isPlain_null : IsPlain .null := .leaf rfl trivial

@[simp] theorem isPlain_bool (b : Bool) : IsPlain (.bool b) := .leaf rfl trivial

@[simp] theorem isPlain_str (s : String) : IsPlain (.str s) := .leaf rfl trivial

@[simp] theorem isPlain_int {n : Int} : IsPlain (.int n) ↔ FitsWord n :=
  ⟨fun h => h.of_leaf rfl, fun h => .leaf rfl h⟩

@[simp] theorem isPlain_arr {items : List Json} :
    IsPlain (.arr items) ↔ ∀ v ∈ items, v.IsPlain := ⟨AllLeaves.items, .arr⟩

@[simp] theorem isPlain_obj {members : List (String × Json)} :
    IsPlain (.obj members) ↔ ∀ m ∈ members, m.2.IsPlain := ⟨AllLeaves.members, .obj⟩

/-- The values that a value is made of. -/
def parts : Json → List Json
  | .arr items => items
  | .obj members => members.map Prod.snd
  | _ => []

/-- The parts of a plain document are plain. -/
theorem IsPlain.parts {v : Json} (hv : v.IsPlain) : ∀ w ∈ v.parts, w.IsPlain := by
  cases v with
  | arr items => exact hv.items
  | obj members => exact List.forall_mem_map.2 hv.members
  | _ => exact List.forall_mem_nil _

/-- A document without reals. -/
def HasNoReals : Json → Prop := AllLeaves fun v => ∀ literal, v ≠ .real literal

/-- A plain document has integers only. -/
theorem IsPlain.hasNoReals {v : Json} (hv : v.IsPlain) : v.HasNoReals :=
  hv.imp fun _ h literal heq => by rw [heq] at h; exact h

/-! ## Sound documents -/

/-- A list is sound if its items are. -/
theorem areSound_iff {items : List Json} : areSound items = true ↔ ∀ v ∈ items, v.isSound = true := by
  induction items with
  | nil => simp [areSound]
  | cons v rest ih => simp [areSound, ih]

theorem areMembersSound_iff {members : List (String × Json)} :
    areMembersSound members = true ↔ ∀ m ∈ members, m.2.isSound = true := by
  induction members with
  | nil => simp [areMembersSound]
  | cons m rest ih => obtain ⟨k, v⟩ := m; simp [areMembersSound, ih]

mutual

/-- A document that passes the check has no defect at any depth. -/
theorem allLeaves_of_isSound : ∀ {v : Json}, v.isSound = true →
    AllLeaves (fun v => ∀ kind, v ≠ .defect kind) v
  | .arr _, h => .arr (allLeaves_of_areSound h)
  | .obj _, h => .obj (allLeaves_of_areMembersSound h)
  | .defect _, h => absurd h (by simp [isSound])
  | .null, _ | .bool _, _ | .int _, _ | .real _, _ | .str _, _ => .leaf rfl fun _ h => by cases h

theorem allLeaves_of_areSound : ∀ {items : List Json}, areSound items = true →
    ∀ v ∈ items, AllLeaves (fun v => ∀ kind, v ≠ .defect kind) v
  | [], _ => List.forall_mem_nil _
  | _ :: _, h =>
    have h := (Bool.and_eq_true_iff.1 h)
    List.forall_mem_cons.2 ⟨allLeaves_of_isSound h.1, allLeaves_of_areSound h.2⟩

theorem allLeaves_of_areMembersSound : ∀ {members : List (String × Json)},
    areMembersSound members = true →
    ∀ m ∈ members, AllLeaves (fun v => ∀ kind, v ≠ .defect kind) m.2
  | [], _ => List.forall_mem_nil _
  | (_, _) :: _, h =>
    have h := (Bool.and_eq_true_iff.1 h)
    List.forall_mem_cons.2 ⟨allLeaves_of_isSound h.1, allLeaves_of_areMembersSound h.2⟩

end

/-- A document is sound exactly if it has no defect. -/
theorem isSound_iff {v : Json} :
    v.isSound = true ↔ AllLeaves (fun v => ∀ kind, v ≠ .defect kind) v := by
  refine ⟨allLeaves_of_isSound, fun hv => ?_⟩
  induction hv with
  | @leaf v hleaf h =>
    cases v with
    | defect kind => exact absurd rfl (h kind)
    | arr items => cases hleaf
    | obj members => cases hleaf
    | _ => rfl
  | arr _ ih => exact areSound_iff.2 ih
  | obj _ ih => exact areMembersSound_iff.2 ih

/-- A plain document passes the check for defects. -/
theorem IsPlain.isSound {v : Json} (hv : v.IsPlain) : v.isSound = true :=
  isSound_iff.2 (hv.imp fun _ h kind heq => by rw [heq] at h; exact h)

theorem areSkippable_of {items : List Json} (h : ∀ v ∈ items, v.isSkippable = true) :
    areSkippable items = true := by
  induction items with
  | nil => rfl
  | cons v rest ih =>
    rw [areSkippable, h v List.mem_cons_self, ih fun w hw => h w (List.mem_cons_of_mem v hw)]
    rfl

theorem areMembersSkippable_of {members : List (String × Json)}
    (h : ∀ m ∈ members, m.2.isSkippable = true) : areMembersSkippable members = true := by
  induction members with
  | nil => rfl
  | cons m rest ih =>
    obtain ⟨k, v⟩ := m
    rw [areMembersSkippable, h (k, v) List.mem_cons_self,
      ih fun m hm => h m (List.mem_cons_of_mem _ hm)]
    rfl

/-- A plain document can be skipped by a reader that has no use for it. -/
theorem IsPlain.isSkippable {v : Json} (hv : v.IsPlain) : v.isSkippable = true := by
  induction hv with
  | @leaf v hleaf h =>
    cases v with
    | defect kind => exact h.elim
    | arr items => cases hleaf
    | obj members => cases hleaf
    | _ => rfl
  | arr _ ih => exact areSkippable_of ih
  | obj _ ih => exact areMembersSkippable_of ih

/-! ## Nesting -/

mutual

/-- How deeply arrays and objects nest in a document. -/
def depth : Json → Nat
  | .arr items => depthOfItems items + 1
  | .obj members => depthOfMembers members + 1
  | _ => 0

/-- The depth of the deepest item. -/
def depthOfItems : List Json → Nat
  | [] => 0
  | v :: rest => max v.depth (depthOfItems rest)

/-- The depth of the deepest value of a member. -/
def depthOfMembers : List (String × Json) → Nat
  | [] => 0
  | (_, v) :: rest => max v.depth (depthOfMembers rest)

end

end TypedBindings.Json
