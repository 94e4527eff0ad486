import Mathlib.Data.List.Forall2
import Mathlib.Data.List.Induction
import Mathlib.Data.Nat.Digits.Defs
import TypedBindings.Proofs.Abi.Descriptor

/-!
# The texts that are descriptors

Only the pieces between brackets and semicolons count, however the brackets stand. The first piece
names a scalar and each later one is a length, around what the pieces before it stand for.

* `IsLength`: the pieces that stand for a length.
* `StandsFor`: the type that some pieces stand for.
* `Offends`: why some pieces stand for no type, by the first of them that is wrong.
* `wrap_eq_ok_iff`, `exists_of_wrap_eq_error`: what lengths make of a type, and what stops them.
* `descriptor_language`: the texts that are read, the types that they are read as, and what is said
  about the others.
-/

namespace TypedBindings

namespace Text

theorem pieces_eq_splitOnP {isBreak : Char → Bool} (cs : List Char) :
    pieces isBreak cs = cs.splitOnP isBreak := by
  induction cs with
  | nil => rfl
  | cons c rest ih => rw [pieces, List.splitOnP_cons_eq_if_modifyHead, ih]

/-- Decimal digits, zeros in front allowed, and the number that they denote. -/
structure IsNumeral (digits : List Char) (n : ℕ) : Prop where
  ne_nil : digits ≠ []
  isDigit : ∀ c ∈ digits, c.isDigit = true
  value : n = Nat.ofDigits 10 (digits.map fun c => c.toNat - '0'.toNat).reverse

/-- Reading digits from the left gives the sum of their places. -/
theorem digitsValue_eq_ofDigits (digits : List Char) :
    digitsValue digits =
      Nat.ofDigits 10 (digits.map fun c => c.toNat - '0'.toNat).reverse := by
  induction digits using List.reverseRecOn with
  | nil => rfl
  | append_singleton rest c ih =>
    have hlast : digitsValue (rest ++ [c]) = 10 * digitsValue rest + (c.toNat - '0'.toNat) :=
      List.foldl_append
    rw [hlast, ih, List.map_append, List.map_singleton, List.reverse_concat, Nat.ofDigits_cons,
      Nat.add_comm]

/-- Digits are a count if the number that they denote fits a word. -/
theorem digits_eq_some_iff {digits : List Char} {n : ℕ} :
    (if !digits.isEmpty && digits.all Char.isDigit && digitsValue digits < wordSize then
      some (digitsValue digits) else none) = some n ↔ IsNumeral digits n ∧ n < wordSize := by
  simp only [Option.ite_none_right_eq_some, Bool.and_eq_true, Bool.not_eq_true', decide_eq_true_eq,
    List.isEmpty_eq_false_iff, List.all_eq_true, Option.some.injEq]
  constructor
  · rintro ⟨⟨⟨hne, hdigits⟩, hlt⟩, rfl⟩
    exact ⟨⟨hne, hdigits, digitsValue_eq_ofDigits digits⟩, hlt⟩
  · rintro ⟨⟨hne, hdigits, hvalue⟩, hlt⟩
    have hn : digitsValue digits = n := (digitsValue_eq_ofDigits digits).trans hvalue.symm
    exact ⟨⟨⟨hne, hdigits⟩, hn ▸ hlt⟩, hn⟩

/-- **The counts that are read**: a numeral that fits a word, behind a `+` or not. -/
theorem count?_eq_some_iff {cs : List Char} {n : ℕ} :
    count? cs = some n ↔
      ∃ digits, (cs = digits ∨ cs = '+' :: digits) ∧ IsNumeral digits n ∧ n < wordSize := by
  unfold count?
  rw [digits_eq_some_iff]
  split
  · next rest =>
    constructor
    · rintro h; exact ⟨rest, Or.inr rfl, h⟩
    · rintro ⟨digits, hdigits | hdigits, h⟩
      -- a sign is no digit
      · have hsign := h.1.isDigit '+' (hdigits ▸ List.mem_cons_self)
        contradiction
      · cases hdigits; exact h
  · next hplus =>
    constructor
    · rintro h; exact ⟨cs, Or.inl rfl, h⟩
    · rintro ⟨digits, rfl | rfl, h⟩
      · exact h
      · exact absurd rfl (hplus digits)

end Text

namespace Abi

/-! ## Pieces -/

/-- The pieces of a text between brackets and semicolons, without the empty ones. -/
def piecesOf (text : String) : List (List Char) :=
  (text.toList.splitOnP (· ∈ ['[', ';', ']'])).filter (· ≠ [])

/-- A piece that stands for a length: a numeral, behind a `+` or not. -/
def IsLength (piece : List Char) (length : Length) : Prop :=
  ∃ digits, (piece = digits ∨ piece = '+' :: digits) ∧ Text.IsNumeral digits length.val

/-- **The type that pieces stand for**: the scalar that the first one names, within arrays of the
lengths that the later ones are, the last length outermost. -/
def StandsFor (pieces : List (List Char)) (type : ValueType) : Prop :=
  ∃ (kind : Scalar) (later : List (List Char)) (lengths : List Length),
    pieces = kind.name.toList :: later ∧
    List.Forall₂ IsLength later lengths ∧ type = lengths.foldl .array (.scalar kind)

/-- **What is wrong with pieces that stand for no type**, as it is said of the first piece that is
wrong. -/
inductive Offends : List (List Char) → String → Prop
  | nothing : Offends [] "empty type descriptor"
  | scalar {piece : List Char} {later : List (List Char)}
      (hpiece : ∀ kind : Scalar, piece ≠ kind.name.toList) :
      Offends (piece :: later) ("unknown type `" ++ String.ofList piece ++ "`")
  | length {kind : Scalar} {before : List (List Char)} {piece : List Char}
      {after : List (List Char)} (hbefore : ∀ p ∈ before, ∃ length, IsLength p length)
      (hpiece : ∀ length, ¬ IsLength piece length) :
      Offends (kind.name.toList :: (before ++ piece :: after))
        ("dimension `" ++ String.ofList piece ++ "` is not a positive integer")

theorem tokens_eq_piecesOf (text : String) : tokens text.toList = piecesOf text := by
  have hbreak : isDelimiter = fun c => decide (c ∈ ['[', ';', ']']) := by
    funext c
    simp [isDelimiter, Bool.or_assoc, beq_eq_decide]
  have hkept : (fun w : List Char => !w.isEmpty) = fun w => decide (w ≠ []) := by
    funext w
    cases w <;> rfl
  unfold tokens piecesOf Text.words
  rw [Text.pieces_eq_splitOnP, hbreak, hkept]

theorem Length.ofToken?_eq_some_iff {piece : List Char} {length : Length} :
    Length.ofToken? piece = some length ↔ IsLength piece length := by
  obtain ⟨n, hpos, hlt⟩ := length
  unfold Length.ofToken? IsLength
  rw [Option.bind_eq_some_iff]
  constructor
  · rintro ⟨m, hm, hlength⟩
    split at hlength
    · cases hlength
      obtain ⟨digits, hpiece, hnumeral, -⟩ := Text.count?_eq_some_iff.1 hm
      exact ⟨digits, hpiece, hnumeral⟩
    · cases hlength
  · rintro ⟨digits, hpiece, hnumeral⟩
    exact ⟨n, Text.count?_eq_some_iff.2 ⟨digits, hpiece, hnumeral, hlt⟩, dif_pos ⟨hpos, hlt⟩⟩

theorem Length.ofToken?_eq_none_iff {piece : List Char} :
    Length.ofToken? piece = none ↔ ∀ length, ¬ IsLength piece length := by
  simp only [← ofToken?_eq_some_iff, Option.eq_none_iff_forall_ne_some, ne_eq]

/-! ## Lengths around a type -/

/-- **What lengths make of a type**: arrays of these lengths, the last one outermost. -/
theorem wrap_eq_ok_iff {element type : ValueType} {later : List (List Char)} :
    wrap element later = .ok type ↔
      ∃ lengths, List.Forall₂ IsLength later lengths ∧ type = lengths.foldl .array element := by
  induction later generalizing element with
  | nil =>
    simp only [wrap, Except.ok.injEq, List.forall₂_nil_left_iff, exists_eq_left, List.foldl_nil]
    exact eq_comm
  | cons piece rest ih =>
    rw [wrap]
    -- The first length wraps the element, and the others wrap what that gives.
    cases hpiece : Length.ofToken? piece with
    | none =>
      have hnot := Length.ofToken?_eq_none_iff.1 hpiece
      refine iff_of_false (fun h => by cases h) ?_
      rintro ⟨lengths, hlengths, -⟩
      obtain ⟨length, _, hlength, -⟩ := List.forall₂_cons_left_iff.1 hlengths
      exact hnot length hlength
    | some length =>
      rw [ih]
      constructor
      · rintro ⟨lengths, hlengths, htype⟩
        exact ⟨length :: lengths, .cons (Length.ofToken?_eq_some_iff.1 hpiece) hlengths, htype⟩
      · rintro ⟨_, hlengths, htype⟩
        obtain ⟨length', lengths, hlength', hrest, rfl⟩ := List.forall₂_cons_left_iff.1 hlengths
        rw [← Length.ofToken?_eq_some_iff, hpiece] at hlength'
        cases hlength'
        exact ⟨lengths, hrest, htype⟩

/-- **What stops lengths**: the first piece that is none. -/
theorem exists_of_wrap_eq_error {element : ValueType} {later : List (List Char)}
    {fault : DescriptorFault} (h : wrap element later = .error fault) :
    ∃ before piece after, later = before ++ piece :: after ∧
      (∀ p ∈ before, ∃ length, IsLength p length) ∧ (∀ length, ¬ IsLength piece length) ∧
      fault = .badLength (String.ofList piece) := by
  induction later generalizing element with
  | nil => cases h
  | cons piece rest ih =>
    rw [wrap] at h
    cases hpiece : Length.ofToken? piece with
    | none =>
      rw [hpiece] at h
      cases h
      exact ⟨[], piece, rest, rfl, List.forall_mem_nil _, Length.ofToken?_eq_none_iff.1 hpiece, rfl⟩
    | some length =>
      rw [hpiece] at h
      obtain ⟨before, piece', after, rfl, hbefore, hpiece', hfault⟩ := ih h
      have hfirst : ∃ length, IsLength piece length :=
        ⟨length, Length.ofToken?_eq_some_iff.1 hpiece⟩
      exact ⟨piece :: before, piece', after, rfl, List.forall_mem_cons.2 ⟨hfirst, hbefore⟩, hpiece',
        hfault⟩

/-! ## The language -/

theorem ofTokens_eq_ok_iff {pieces : List (List Char)} {type : ValueType} :
    ofTokens pieces = .ok type ↔ StandsFor pieces type := by
  unfold StandsFor
  cases pieces with
  | nil => exact iff_of_false (fun h => by cases h) (by rintro ⟨_, _, _, ⟨⟩, -⟩)
  | cons base later =>
    rw [ofTokens]
    cases hbase : Scalar.ofName? base with
    | none =>
      refine iff_of_false (fun h => by cases h) ?_
      rintro ⟨kind, _, _, hpieces, -⟩
      cases hpieces
      rw [Scalar.ofName?_name] at hbase
      cases hbase
    | some kind =>
      have hname := Scalar.ofName?_eq_some_iff.1 hbase
      show wrap (.scalar kind) later = .ok type ↔ _
      rw [wrap_eq_ok_iff]
      constructor
      · rintro ⟨lengths, hlengths, htype⟩
        exact ⟨kind, later, lengths, by rw [hname], hlengths, htype⟩
      · rintro ⟨kind', _, lengths, hpieces, hlengths, htype⟩
        cases hpieces
        rw [Scalar.ofName?_name] at hbase
        cases hbase
        exact ⟨lengths, hlengths, htype⟩

/-- Pieces that are not read are wrong from the first one on that the fault names. -/
theorem offends_of_ofTokens {pieces : List (List Char)} {fault : DescriptorFault}
    (h : ofTokens pieces = .error fault) : Offends pieces fault.message := by
  cases pieces with
  | nil => cases h; exact .nothing
  | cons base later =>
    rw [ofTokens] at h
    cases hbase : Scalar.ofName? base with
    | none =>
      rw [hbase] at h
      cases h
      refine .scalar fun kind hkind => ?_
      rw [hkind, Scalar.ofName?_name] at hbase
      cases hbase
    | some kind =>
      rw [hbase] at h
      obtain ⟨before, piece, after, rfl, hbefore, hpiece, rfl⟩ := exists_of_wrap_eq_error h
      rw [Scalar.ofName?_eq_some_iff.1 hbase]
      exact .length hbefore hpiece

/-- **The texts that are descriptors.** A text is read exactly if its first piece names a scalar and
its later pieces are lengths, and then as the scalar within arrays of these lengths. Of any other
text the fault has the text itself and says what is wrong with the first piece that is wrong. Where
the whole text names a scalar, taking it apart gives that scalar too. -/
theorem descriptor_language (text : String) :
    (∀ type, ValueType.ofDescriptor text = .ok type ↔ StandsFor (piecesOf text) type) ∧
      (∀ e, ValueType.ofDescriptor text = .error e →
        e.descriptor = text ∧ Offends (piecesOf text) e.fault.message) ∧
      ∀ kind, Scalar.ofName? text.toList = some kind →
        ofTokens (tokens text.toList) = .ok (.scalar kind) := by
  refine ⟨fun type => ?_, fun e h => ?_, fun kind h => ?_⟩
  · rw [ValueType.ofDescriptor_eq, mapError_eq_ok_iff, tokens_eq_piecesOf, ofTokens_eq_ok_iff]
  · rw [ValueType.ofDescriptor_eq, mapError_eq_error_iff, tokens_eq_piecesOf] at h
    obtain ⟨fault, hfault, rfl⟩ := h
    exact ⟨rfl, offends_of_ofTokens hfault⟩
  · rw [Scalar.ofName?_eq_some_iff.1 h]
    exact ofTokens_tokens_scalar kind

/-- Brackets that do not match, a sign and a zero in front; and two pieces that are no lengths. -/
theorem descriptor_language_loose :
    (∃ type, ValueType.ofDescriptor "]U256[;+02" = .ok type ∧
      StandsFor (piecesOf "]U256[;+02") type ∧ type.descriptor = "[U256;2]") ∧
      ∃ e, ValueType.ofDescriptor "[[Bool;2];0];x" = .error e ∧
        e.descriptor = "[[Bool;2];0];x" ∧ Offends (piecesOf "[[Bool;2];0];x") e.fault.message ∧
        e.fault.message = "dimension `0` is not a positive integer" := by
  have hread : ValueType.ofDescriptor "]U256[;+02" =
      .ok (.array (.scalar .u256) ⟨2, by decide, by decide⟩) := by rfl
  have hfault : ValueType.ofDescriptor "[[Bool;2];0];x" =
      .error ⟨"[[Bool;2];0];x", .badLength "0"⟩ := by rfl
  obtain ⟨htext, hoffends⟩ := (descriptor_language "[[Bool;2];0];x").2.1 _ hfault
  exact ⟨⟨_, hread, ((descriptor_language "]U256[;+02").1 _).1 hread, by decide +kernel⟩,
    _, hfault, htext, hoffends, by decide +kernel⟩

end Abi

end TypedBindings
