import TypedBindings.Binding.Types
import TypedBindings.Proofs.Abi.Descriptor
import TypedBindings.Proofs.TypeScript.TypeTexts

/-!
# Types of the bindings keep types of the ABI

A tuple shows the length of an array by how many elements it has, and its element by each of them.

* `Abi.ValueType.unsigned`: what the type of the bindings keeps.
* `typeOf_eq_iff`: types of the ABI with one type of the bindings.
* `descriptors_keep_types`: what a descriptor and the text of its type say of a type.
-/

namespace TypedBindings.Abi

/-- A scalar without what its name in the bindings does not show: whether integers are signed. -/
def Scalar.unsigned : Scalar → Scalar
  | .i256 => .u256
  | kind => kind

/-- A type with unsigned integers in the place of signed ones. -/
def ValueType.unsigned : ValueType → ValueType
  | .scalar kind => .scalar kind.unsigned
  | .array element length => .array element.unsigned length

end TypedBindings.Abi

namespace TypedBindings.Binding

open Abi TypeScript

theorem scalarType_eq_iff (kind kind' : Scalar) :
    scalarType kind = scalarType kind' ↔ kind.unsigned = kind'.unsigned := by
  cases kind <;> cases kind' <;> decide

/-- **Two types of the ABI become one** exactly if they differ in signs only. -/
theorem typeOf_eq_iff (t t' : ValueType) : typeOf t = typeOf t' ↔ t.unsigned = t'.unsigned := by
  induction t generalizing t' with
  | scalar kind =>
    cases t' with
    | scalar kind' =>
      rw [typeOf, typeOf, Ty.named.injEq, ValueType.unsigned, ValueType.unsigned,
        ValueType.scalar.injEq]
      exact scalarType_eq_iff kind kind'
    | array element' length' => exact iff_of_false nofun nofun
  | array element length ih =>
    cases t' with
    | scalar kind' => exact iff_of_false nofun nofun
    | array element' length' =>
      have hlength : length.val = length'.val ↔ length = length' := by
        cases length
        cases length'
        simp
      have hpos : length.val ≠ 0 := by
        have hlt := length.pos
        omega
      -- a tuple has at least one element, which shows the element of the array
      rw [typeOf, typeOf, Ty.tuple.injEq, List.replicate_inj, ValueType.unsigned,
        ValueType.unsigned, ValueType.array.injEq, ih, hlength]
      simp only [hpos, false_or]
      exact and_comm

theorem isReadable_typeOf (t : ValueType) : (typeOf t).IsReadable := by
  induction t with
  | scalar kind =>
    refine .named (isTypeName_of_letters ?_ ?_)
    · cases kind <;> decide
    · cases kind <;> decide
  | array element length ih =>
    refine .tuple fun u hu => ?_
    rw [List.eq_of_mem_replicate hu]
    exact ih

/-- **Descriptors keep types.** What a type is written as is read as that type; and the texts of the
types that two descriptors become in the bindings are one exactly if the descriptors stand for types
that differ in nothing but the signs of integers. -/
theorem descriptors_keep_types :
    (∀ t : ValueType, ValueType.ofDescriptor t.descriptor = .ok t) ∧
      ∀ {d d' : String} {t t' : ValueType}, ValueType.ofDescriptor d = .ok t →
        ValueType.ofDescriptor d' = .ok t' →
        ((typeOf t).text = (typeOf t').text ↔ t.unsigned = t'.unsigned) := by
  refine ⟨ValueType.ofDescriptor_descriptor, fun {_ _ t t'} _ _ => ?_⟩
  rw [← typeOf_eq_iff]
  constructor
  · intro htext
    exact (isReadable_typeOf t).ends.2.eq_of_text (isReadable_typeOf t') htext
  · intro heq
    rw [heq]

/-- Two pairs of three integers, with and without signs, and three integers twice. -/
theorem descriptors_keep_types_pairs :
    ∃ pairs signed triples : ValueType,
      ValueType.ofDescriptor "[[U256;2];3]" = .ok pairs ∧
      ValueType.ofDescriptor "I256;+2;03" = .ok signed ∧
      ValueType.ofDescriptor "[[U256;3];2]" = .ok triples ∧
      (typeOf pairs).text = (typeOf signed).text ∧ (typeOf pairs).text ≠ (typeOf triples).text := by
  let two : Length := ⟨2, by decide, by decide⟩
  let three : Length := ⟨3, by decide, by decide⟩
  let pairs : ValueType := .array (.array (.scalar .u256) two) three
  let signed : ValueType := .array (.array (.scalar .i256) two) three
  let triples : ValueType := .array (.array (.scalar .u256) three) two
  have hpairs : ValueType.ofDescriptor "[[U256;2];3]" = .ok pairs := by rfl
  have hsigned : ValueType.ofDescriptor "I256;+2;03" = .ok signed := by rfl
  have htriples : ValueType.ofDescriptor "[[U256;3];2]" = .ok triples := by rfl
  refine ⟨pairs, signed, triples, hpairs, hsigned, htriples, ?_, ?_⟩
  · exact (descriptors_keep_types.2 hpairs hsigned).2 rfl
  · intro htext
    have hsame := (descriptors_keep_types.2 hpairs htriples).1 htext
    revert hsame
    decide

end TypedBindings.Binding
