import Mathlib.Data.List.Forall2
import TypedBindings.Binding.Allocation
import TypedBindings.Proofs.Abi.DescriptorLanguage
import TypedBindings.Proofs.Artifact.Faults

/-!
# Arrays that are too long to be built

A descriptor tells by itself whether its type can be built, and an artifact whether the types of its
binding can.

* `Overflows`: the descriptors with a length that is too long.
* `builtTypeOf_eq_none_iff_overflows`: they are those whose types cannot be built.
* `usedDescriptors`: the descriptors that a binding is made of.
-/

namespace TypedBindings

open Abi TypeScript

namespace Artifact

/-- The descriptors of the fields that users see. -/
def Fields.usedDescriptors (f : Fields) : List String :=
  ((f.names.zip f.types).filter fun entry => entry.1 != interfaceIdField).map Prod.snd

/-- The descriptors of the types that a contract's unit shows. -/
def Contract.usedDescriptors (c : Contract) : List String :=
  c.fields.usedDescriptors ++ c.events.flatMap Event.fieldTypes ++
    c.functions.flatMap fun f => f.paramTypes ++ f.returnTypes

/-- The descriptors of the types that a script's constant shows. -/
def Script.usedDescriptors (s : Script) : List String := s.fields.usedDescriptors

theorem Fields.areReadAs_userFields {f : Fields} {fields : List Field} (h : f.HasFields fields) :
    AreReadAs f.usedDescriptors ((fields.filter Field.isUser).map Field.type) := by
  let IsEntry (entry : String × String) (field : Field) : Prop :=
    field.name = entry.1 ∧ ValueType.ofDescriptor entry.2 = .ok field.type
  have hentries : List.Forall₂ IsEntry (f.names.zip f.types) fields := by
    obtain ⟨hnames, htypes, -⟩ := h
    rw [← hnames]
    unfold AreReadAs at htypes
    generalize f.types = types at htypes
    clear hnames
    induction fields generalizing types with
    | nil => exact .nil
    | cons field rest ih =>
      obtain ⟨d, types', hd, hrest, rfl⟩ := List.forall₂_cons_right_iff.1 htypes
      exact .cons ⟨rfl, hd⟩ (ih types' hrest)
  have hkept : List.Forall₂ IsEntry
      ((f.names.zip f.types).filter fun entry => entry.1 != interfaceIdField)
      (fields.filter Field.isUser) :=
    List.rel_filter (fun _ field hentry => by
      show _ ↔ (field.name != interfaceIdField) = true
      rw [hentry.1]) hentries
  exact List.rel_map (fun _ _ hentry => hentry.2) hkept

/-- **The types of a binding** are those that its descriptors are read as. -/
theorem Contract.areReadAs_usedTypes {c : Contract} {i : Abi.Contract} (h : c.HasInterface i) :
    AreReadAs c.usedDescriptors i.usedTypes := by
  have hevents : AreReadAs (c.events.flatMap Event.fieldTypes)
      (i.events.flatMap fun e => e.fields.map Abi.Param.type) :=
    List.rel_flatMap h.events fun _ _ he => he.fields.types
  have hfunctions : AreReadAs (c.functions.flatMap fun f => f.paramTypes ++ f.returnTypes)
      (i.functions.flatMap fun f => f.params.map Abi.Param.type ++ f.returns) :=
    List.rel_flatMap h.functions fun _ _ hf => List.rel_append hf.params.types hf.returns
  exact List.rel_append (List.rel_append (Fields.areReadAs_userFields h.fields) hevents) hfunctions

theorem Script.areReadAs_usedTypes {s : Script} {i : Abi.Script} (h : s.lower = .ok i) :
    AreReadAs s.usedDescriptors i.usedTypes := by
  unfold Script.lower at h
  obtain ⟨fields, hfields, h⟩ := exists_of_bind_eq_ok h
  cases h
  exact Fields.areReadAs_userFields (Fields.hasFields_of_lower hfields)

end Artifact

namespace Binding

/-! ## Building types list by list -/

variable {size : Nat} {type : ValueType} {text : String}

/-- **A type is built** exactly if each of its arrays can be. -/
theorem builtTypeOf_eq_some_iff {built : Ty} :
    builtTypeOf size type = some built ↔
      (∀ length ∈ type.lengths, length.val * size ≤ allocationLimit) ∧ built = typeOf type := by
  induction type generalizing built with
  | scalar kind =>
    rw [builtTypeOf, Option.some.injEq, ValueType.lengths, typeOf]
    exact ⟨fun h => ⟨nofun, h.symm⟩, fun h => h.2.symm⟩
  | array element length ih =>
    rw [builtTypeOf, ValueType.lengths, List.forall_mem_cons, typeOf]
    simp only [Option.bind_eq_bind, Option.bind_eq_some_iff, Option.pure_def, Option.some.injEq, ih]
    constructor
    · rintro ⟨_, ⟨helement, rfl⟩, elements, hallocated, rfl⟩
      unfold allocated at hallocated
      split at hallocated
      · next hlength =>
        cases hallocated
        exact ⟨⟨hlength, helement⟩, rfl⟩
      · cases hallocated
    · rintro ⟨⟨hlength, helement⟩, rfl⟩
      exact ⟨typeOf element, ⟨helement, rfl⟩, _, if_pos hlength, rfl⟩

theorem eq_typeOf_of_builtTypeOf {built : Ty} (h : builtTypeOf size type = some built) :
    built = typeOf type := (builtTypeOf_eq_some_iff.1 h).2

theorem builtTypeOf_eq_none_iff :
    builtTypeOf size type = none ↔
      ∃ length ∈ type.lengths, allocationLimit < length.val * size := by
  rw [Option.eq_none_iff_forall_ne_some]
  constructor
  · intro h
    by_contra hshort
    push Not at hshort
    exact h (typeOf type) (builtTypeOf_eq_some_iff.2 ⟨hshort, rfl⟩)
  · rintro ⟨length, hlength, hlong⟩ built hbuilt
    exact absurd ((builtTypeOf_eq_some_iff.1 hbuilt).1 length hlength) (Nat.not_le.2 hlong)

/-! ## Descriptors with a length that is too long -/

/-- **A descriptor overflows** if one of its pieces is a length of more elements than fit. -/
def Overflows (size : Nat) (text : String) : Prop :=
  ∃ piece ∈ (piecesOf text).tail, ∃ length : Length, IsLength piece length ∧
    allocationLimit < length.val * size

theorem lengths_foldl_array (lengths : List Length) (element : ValueType) :
    (lengths.foldl .array element).lengths = lengths.reverse ++ element.lengths := by
  induction lengths generalizing element with
  | nil => rfl
  | cons length rest ih => rw [List.foldl_cons, ih, ValueType.lengths]; simp

/-- What some elements of a list have, some of the elements beside them have. -/
theorem exists_mem_iff_of_forall₂ {α β : Type} {R : α → β → Prop} {P : α → Prop} {Q : β → Prop}
    {as : List α} {bs : List β} (h : List.Forall₂ R as bs) (hR : ∀ a b, R a b → (P a ↔ Q b)) :
    (∃ a ∈ as, P a) ↔ ∃ b ∈ bs, Q b := by
  induction h with
  | nil => exact iff_of_false nofun nofun
  | cons hfirst _ ih => rw [List.exists_mem_cons_iff, List.exists_mem_cons_iff, ih, hR _ _ hfirst]

/-- A piece is one length at most. -/
theorem exists_isLength_iff {piece : List Char} {length : Length} (h : IsLength piece length)
    (P : Length → Prop) : (∃ length, IsLength piece length ∧ P length) ↔ P length := by
  constructor
  · rintro ⟨length', hlength', hP⟩
    rw [← Length.ofToken?_eq_some_iff, Length.ofToken?_eq_some_iff.2 h] at hlength'
    cases hlength'
    exact hP
  · exact fun hP => ⟨length, h, hP⟩

/-- **The descriptor of a type overflows** exactly if the type cannot be built. -/
theorem builtTypeOf_eq_none_iff_overflows (h : ValueType.ofDescriptor text = .ok type) :
    builtTypeOf size type = none ↔ Overflows size text := by
  rw [ValueType.ofDescriptor_eq, mapError_eq_ok_iff, tokens_eq_piecesOf, ofTokens_eq_ok_iff] at h
  obtain ⟨kind, later, lengths, hpieces, hlengths, rfl⟩ := h
  have hlong := exists_mem_iff_of_forall₂ hlengths fun _ _ hlength =>
    exists_isLength_iff hlength fun length => allocationLimit < length.val * size
  unfold Overflows
  rw [builtTypeOf_eq_none_iff, hpieces, List.tail_cons, hlong, lengths_foldl_array,
    ValueType.lengths, List.append_nil]
  simp only [List.mem_reverse]

/-- **Types that are read from descriptors can be built** exactly if none of these overflows. -/
theorem canBuild_eq_false_iff {descriptors : List String} {types : List ValueType}
    (h : Artifact.AreReadAs descriptors types) :
    canBuild size types = false ↔ ∃ d ∈ descriptors, Overflows size d := by
  have hlong : (∃ d ∈ descriptors, Overflows size d) ↔
      ∃ type ∈ types, builtTypeOf size type = none :=
    exists_mem_iff_of_forall₂ h fun _ _ hd => (builtTypeOf_eq_none_iff_overflows hd).symm
  rw [hlong]
  unfold canBuild
  simp

end Binding

end TypedBindings
