import TypedBindings.Abi.Descriptor
import TypedBindings.Proofs.Results
import TypedBindings.Proofs.Text.Number

/-!
# Descriptors read back

A descriptor has its pieces in the order in which a reader wraps them: the scalar, then the lengths
from the innermost array to the outermost.

* `ofTokens_append`: a further piece is the length of one more array.
* `tokens_descriptor_array`: the length of an array is the last piece of its descriptor.
* `ValueType.ofDescriptor_eq`: a descriptor is read by its pieces alone.
* `ValueType.ofDescriptor_descriptor`: what a type is written as is read as that type.
-/

namespace TypedBindings.Abi

/-! ## Pieces -/

theorem Length.ofToken?_toDigits (length : Length) :
    Length.ofToken? (Nat.toDigits 10 length.val) = some length := by
  unfold Length.ofToken?
  rw [Text.count?_toDigits length.lt_word]
  simp [length.pos, length.lt_word]

theorem Scalar.ofName?_name (kind : Scalar) : Scalar.ofName? kind.name.toList = some kind := by
  cases kind <;> decide

theorem Scalar.ofName?_eq_some_iff {name : List Char} {kind : Scalar} :
    Scalar.ofName? name = some kind ↔ name = kind.name.toList := by
  constructor
  · intro h
    have hname := List.find?_some h
    exact (of_decide_eq_true hname).symm
  · rintro rfl
    exact ofName?_name kind

/-- Wrapping in further lengths goes on from the type that the first ones give. -/
theorem wrap_append (element : ValueType) (front back : List (List Char)) :
    wrap element (front ++ back) = (wrap element front).bind fun inner => wrap inner back := by
  induction front generalizing element with
  | nil => rfl
  | cons token rest ih =>
    rw [List.cons_append, wrap, wrap]
    split
    · exact ih _
    · rfl

/-- **A further piece is the length of one more array**, around what the pieces before it give. -/
theorem ofTokens_append {pieces : List (List Char)} {element : ValueType} {token : List Char}
    {length : Length} (h : ofTokens pieces = .ok element)
    (htoken : Length.ofToken? token = some length) :
    ofTokens (pieces ++ [token]) = .ok (.array element length) := by
  cases pieces with
  | nil => cases h
  | cons base lengths =>
    rw [List.cons_append, ofTokens]
    rw [ofTokens] at h
    split at h
    · rw [wrap_append, h]
      have hlast : wrap element [token] = .ok (.array element length) := by
        rw [wrap, htoken]
        rfl
      exact hlast
    · cases h

/-! ## Written descriptors -/

theorem toList_descriptor_array (element : ValueType) (length : Length) :
    (ValueType.array element length).descriptor.toList =
      '[' :: (element.descriptor.toList ++ ';' :: (Nat.toDigits 10 length.val ++ [']'])) := by
  have htext : (ValueType.array element length).descriptor =
      "[" ++ element.descriptor ++ ";" ++ toString length.val ++ "]" := rfl
  rw [htext]
  simp

/-- **The length of an array is the last piece of its descriptor**, and the other ones are those of
its element. -/
theorem tokens_descriptor_array (element : ValueType) (length : Length) :
    tokens (ValueType.array element length).descriptor.toList =
      tokens element.descriptor.toList ++ [Nat.toDigits 10 length.val] := by
  have hdigits : ∀ c ∈ Nat.toDigits 10 length.val, isDelimiter c = false := by
    intro c hc
    have hdigit := Text.isDigit_toDigits hc
    have hne : ∀ d : Char, d.isDigit = false → c ≠ d := by
      rintro d hd rfl
      rw [hdigit] at hd
      contradiction
    simp [isDelimiter, hne '[' rfl, hne ';' rfl, hne ']' rfl]
  unfold tokens
  rw [toList_descriptor_array, Text.words_cons (by rfl), Text.words_append (by rfl),
    Text.words_append (by rfl), Text.words_of_no_break Nat.toDigits_ne_nil hdigits]
  rfl

theorem tokens_scalar (kind : Scalar) : tokens kind.name.toList = [kind.name.toList] := by
  cases kind <;> decide

/-- **A scalar's name taken apart** stands for the scalar as well. -/
theorem ofTokens_tokens_scalar (kind : Scalar) :
    ofTokens (tokens kind.name.toList) = .ok (.scalar kind) := by
  rw [tokens_scalar, ofTokens, Scalar.ofName?_name]
  rfl

/-- A descriptor is read by its pieces, whether it is a scalar's name or not. -/
theorem ValueType.ofDescriptor_eq (text : String) :
    ofDescriptor text = (ofTokens (tokens text.toList)).mapError fun fault => ⟨text, fault⟩ := by
  unfold ofDescriptor
  cases h : Scalar.ofName? text.toList with
  | none => rfl
  | some kind =>
    rw [Scalar.ofName?_eq_some_iff.1 h, ofTokens_tokens_scalar]
    rfl

/-- The pieces of a type's descriptor stand for the type. -/
theorem ofTokens_descriptor (type : ValueType) :
    ofTokens (tokens type.descriptor.toList) = .ok type := by
  induction type with
  | scalar kind => exact ofTokens_tokens_scalar kind
  | array element length ih =>
    rw [tokens_descriptor_array]
    exact ofTokens_append ih length.ofToken?_toDigits

/-- **What a type is written as is read as that type.** -/
theorem ValueType.ofDescriptor_descriptor (type : ValueType) :
    ValueType.ofDescriptor type.descriptor = .ok type := by
  rw [ValueType.ofDescriptor_eq]
  exact mapError_eq_ok_iff.2 (ofTokens_descriptor type)

end TypedBindings.Abi
