import TypedBindings.Proofs.Text.Parts
import TypedBindings.Proofs.Text.Quoted
import TypedBindings.TypeScript.Ty

/-!
# Texts of types

A type is found again from its text. A union is in parentheses where brackets follow it and ends
with what it stands in everywhere else, so nothing else needs parentheses.

* `Ty.IsReadable`: types with names that are free of marks, and with unions of several types that
  are no unions themselves.
* `Ty.OperandEnds`, `Ty.TypeEnds`: where a type ends in front of brackets, and elsewhere.
* `Ty.IsReadable.ends`: where readable types end, by one case for each of their forms.
* `Ty.text_eq_iff`: readable types with one text.
-/

namespace TypedBindings.TypeScript

/-! ## Readable types -/

/-- The marks of the language of types. Letters and digits are none, nor are `_`, `$` and `.`. -/
def typeMarks : List Char :=
  ['<', '>', '[', ']', '(', ')', '\x7b', '\x7d', ',', ';', ':', '?', '|', ' ', '"']

/-- Whether a character is such a mark. -/
def isTypeMark (c : Char) : Bool := typeMarks.contains c

/-- A name that is free of marks. -/
structure IsTypeName (name : String) : Prop where
  ne_empty : name ≠ ""
  no_mark : ∀ c ∈ name.toList, isTypeMark c = false

/-- **A type whose text can be read**: its names are free of marks, a union has at least two
variants, and none of them is a union. -/
inductive Ty.IsReadable : Ty → Prop
  | named {name : String} : IsTypeName name → IsReadable (.named name)
  | generic {name : String} {args : List Ty} :
    IsTypeName name → (∀ t ∈ args, t.IsReadable) → IsReadable (.generic name args)
  | tuple {elements : List Ty} : (∀ t ∈ elements, t.IsReadable) → IsReadable (.tuple elements)
  | object {members : List (Member Ty)} : (∀ m ∈ members, IsTypeName m.name) →
    (∀ m ∈ members, m.type.IsReadable) → IsReadable (.object members)
  | union {variants : List Ty} : 2 ≤ variants.length → (∀ t ∈ variants, t.isUnion = false) →
    (∀ t ∈ variants, t.IsReadable) → IsReadable (.union variants)
  | literal (text : String) : IsReadable (.literal text)
  | array {element : Ty} : element.IsReadable → IsReadable (.array element)

/-! ## Characters -/

namespace Ty

/-- The characters of a type. -/
def chars (t : Ty) : List Char := t.text.toList

/-- The characters of a type in front of brackets. -/
def operandChars (t : Ty) : List Char :=
  if t.isUnion then '(' :: (t.chars ++ [')']) else t.chars

/-- The characters of a member of an object type. -/
def memberChars (m : Member Ty) : List Char :=
  m.name.toList ++ ((optionalMark m.isOptional).toList ++ (':' :: ' ' :: m.type.chars))

theorem texts_eq_map (types : List Ty) : texts types = types.map text := by
  induction types with
  | nil => rfl
  | cons t rest ih => rw [texts, ih, List.map_cons]

/-- The characters of types with a separator between them. -/
theorem toList_intercalate_texts (sep : String) (types : List Ty) :
    (sep.intercalate (texts types)).toList = sep.toList.intercalate (types.map chars) := by
  rw [String.toList_intercalate, texts_eq_map, List.map_map]
  rfl

/-- The characters of members, one by one. -/
theorem map_toList_memberTexts (members : List (Member Ty)) :
    (memberTexts members).map String.toList = members.map memberChars := by
  induction members with
  | nil => rfl
  | cons m rest ih =>
    have hfirst : (m.name ++ optionalMark m.isOptional ++ ": " ++ m.type.text).toList =
        memberChars m := by
      simp [memberChars, chars]
    rw [memberTexts, List.map_cons, ih, hfirst, List.map_cons]

/-- A name with its arguments between angles. -/
theorem chars_generic (name : String) (args : List Ty) :
    (generic name args).chars =
      name.toList ++ '<' :: ([',', ' '].intercalate (args.map chars) ++ ['>']) := by
  have hargs := toList_intercalate_texts ", " args
  simp only [chars, text, String.toList_append, hargs, List.append_assoc]
  rfl

theorem chars_tuple (elements : List Ty) :
    (tuple elements).chars = '[' :: ([',', ' '].intercalate (elements.map chars) ++ [']']) := by
  have helements := toList_intercalate_texts ", " elements
  simp only [chars, text, String.toList_append, helements, List.append_assoc]
  rfl

/-- An object without members has no blank between its braces. -/
theorem chars_object_nil : (object []).chars = ['\x7b', '\x7d'] := by decide

theorem chars_object_cons (m : Member Ty) (rest : List (Member Ty)) :
    (object (m :: rest)).chars =
      '\x7b' :: ' ' :: ([';', ' '].intercalate ((m :: rest).map memberChars) ++ [' ', '\x7d']) := by
  have hmembers : ("; ".intercalate (memberTexts (m :: rest))).toList =
      [';', ' '].intercalate ((m :: rest).map memberChars) := by
    rw [String.toList_intercalate, map_toList_memberTexts]
    rfl
  simp only [chars, text, String.toList_append, hmembers, List.append_assoc]
  rfl

theorem chars_union (variants : List Ty) :
    (union variants).chars = [' ', '|', ' '].intercalate (variants.map chars) :=
  toList_intercalate_texts " | " variants

theorem chars_literal (s : String) :
    (literal s).chars = '"' :: (s.toList.flatMap Text.escape ++ ['"']) := Text.toList_quote s

/-- Brackets stand behind an element, which is in parentheses if it is a union. -/
theorem chars_array (element : Ty) :
    (array element).chars = element.operandChars ++ ['[', ']'] := by
  unfold chars operandChars
  rw [text]
  split <;> simp [chars]

theorem operandChars_of_not_union {t : Ty} (h : t.isUnion = false) : t.operandChars = t.chars := by
  unfold operandChars
  rw [h]
  rfl

theorem operandChars_union (variants : List Ty) :
    (union variants).operandChars = '(' :: ((union variants).chars ++ [')']) := rfl

end Ty

/-! ## What may follow -/

/-- What may follow a type: nothing, the next part, or the end of what it is part of. -/
def closesType : List Char → Bool
  | [] => true
  | ' ' :: c :: _ => c == '\x7d'
  | c :: _ => [',', ';', '>', ']', ')'].contains c

/-- What may follow a variant of a union. -/
def closesVariant : List Char → Bool
  | ' ' :: '|' :: _ => true
  | cs => closesType cs

/-- What may follow a type that has no brackets behind it: brackets, too. -/
def closesOperand : List Char → Bool
  | '[' :: ']' :: _ => true
  | cs => closesVariant cs

section

variable {r r' : List Char}

/-- What ends a type ends its last variant. -/
theorem closesVariant_of_closesType (h : closesType r = true) : closesVariant r = true := by
  unfold closesVariant
  split
  · rfl
  · exact h

/-- What ends a variant ends what brackets could follow. -/
theorem closesOperand_of_closesVariant (h : closesVariant r = true) : closesOperand r = true := by
  unfold closesOperand
  split
  · rfl
  · exact h

/-- What follows a type begins with a mark, and with one that opens nothing. -/
theorem head_of_closesType {c : Char} {rest : List Char} (h : closesType (c :: rest) = true) :
    c ∈ [' ', ',', ';', '>', ']', ')'] := by
  unfold closesType at h
  split at h
  · contradiction
  · next heq => cases heq; simp
  · next heq =>
    cases heq
    simp only [List.contains_iff_mem] at h
    exact List.mem_cons_of_mem _ h

/-- The first character behind a variant. -/
theorem head_of_closesVariant {c : Char} {rest : List Char} (h : closesVariant (c :: rest) = true) :
    c ∈ [' ', ',', ';', '>', ']', ')'] := by
  unfold closesVariant at h
  split at h
  · next heq => cases heq; simp
  · exact head_of_closesType h

/-- The first character behind an operand, which may be a bracket as well. -/
theorem head_of_closesOperand {c : Char} {rest : List Char} (h : closesOperand (c :: rest) = true) :
    c ∈ ['[', ' ', ',', ';', '>', ']', ')'] := by
  unfold closesOperand at h
  split at h
  · next heq => cases heq; simp
  · exact List.mem_cons_of_mem _ (head_of_closesVariant h)

/-- What follows a type is no bar. -/
theorem no_bar_in_front (h : closesType r = true) : ¬ [' ', '|', ' '] <+: r := by
  rintro ⟨rest, rfl⟩
  simp [closesType] at h

/-- Where an operand ends, a name ends, and no type arguments follow. -/
theorem ends_name (h : closesOperand r = true) :
    r.head?.all isTypeMark = true ∧ r.head? ≠ some '<' := by
  cases r with
  | nil => exact ⟨rfl, nofun⟩
  | cons c rest =>
    have hc : c ∈ ['[', ' ', ',', ';', '>', ']', ')'] := head_of_closesOperand h
    have hmark : isTypeMark c = true := List.all_eq_true.1 (by decide) c hc
    refine ⟨hmark, fun he => ?_⟩
    rw [Option.some.inj he] at hc
    exact absurd hc (by decide)

/-- A name ends where a mark stands. -/
theorem IsTypeName.append_inj {name name' : String} (hname : IsTypeName name)
    (hname' : IsTypeName name') (hr : r.head?.all isTypeMark = true)
    (hr' : r'.head?.all isTypeMark = true) (h : name.toList ++ r = name'.toList ++ r') :
    name = name' ∧ r = r' := by
  have hpart : ∀ {n : String}, IsTypeName n → ∀ c ∈ n.toList, (!isTypeMark c) = true := by
    intro n hn c hc
    rw [hn.no_mark c hc]
    rfl
  have hend : ∀ {s : List Char}, s.head?.all isTypeMark = true →
      s.head?.all (fun c => !(!isTypeMark c)) = true := by
    intro s hs
    simpa using hs
  obtain ⟨hlist, hrest⟩ := Text.run_append_inj (hpart hname) (hpart hname') (hend hr) (hend hr') h
  exact ⟨String.toList_injective hlist, hrest⟩

end

/-! ## Brackets behind a type -/

/-- The brackets of nested array types. -/
def brackets : Nat → List Char
  | 0 => []
  | n + 1 => '[' :: ']' :: brackets n

/-- Array types around a type. -/
def Ty.arrayed : Nat → Ty → Ty
  | 0, t => t
  | n + 1, t => arrayed n (.array t)

section

variable {t t' : Ty} {r r' : List Char}

theorem brackets_append (m n : Nat) (r : List Char) :
    brackets (m + n) ++ r = brackets m ++ (brackets n ++ r) := by
  induction m with
  | zero => simp [brackets]
  | succ m ih => rw [Nat.succ_add, brackets, brackets, List.cons_append, List.cons_append, ih]; rfl

/-- Brackets are put on one by one. -/
theorem Ty.arrayed_add (m n : Nat) (t : Ty) : arrayed (m + n) t = arrayed n (arrayed m t) := by
  induction m generalizing t with
  | zero => rw [Nat.zero_add]; rfl
  | succ m ih => rw [Nat.succ_add]; exact ih (.array t)

theorem closesOperand_brackets (n : Nat) (h : closesVariant r = true) :
    closesOperand (brackets n ++ r) = true := by
  cases n with
  | zero => exact closesOperand_of_closesVariant h
  | succ n => rfl

/-- The brackets behind a type are counted by its text. -/
theorem brackets_append_inj {n n' : Nat} (hr : closesVariant r = true)
    (hr' : closesVariant r' = true) (h : brackets n ++ r = brackets n' ++ r') : n = n' ∧ r = r' := by
  have hno : ∀ {s : List Char} (m : Nat) (rest : List Char), closesVariant s = true →
      s ≠ brackets (m + 1) ++ rest := by
    rintro s m rest hs rfl
    exact absurd hs (by simp [brackets, closesVariant, closesType])
  induction n generalizing n' with
  | zero =>
    cases n' with
    | zero => exact ⟨rfl, h⟩
    | succ n' => exact absurd h (hno n' r' hr)
  | succ n ih =>
    cases n' with
    | zero => exact absurd h.symm (hno n r hr')
    | succ n' =>
      obtain ⟨hn, hrest⟩ := ih (List.tail_eq_of_cons_eq (List.tail_eq_of_cons_eq h))
      exact ⟨congrArg (· + 1) hn, hrest⟩

/-! ## Where types end -/

/-- **A type in front of brackets says where it ends**, as long as readable types are compared: the
types with their brackets are one. -/
def Ty.OperandEnds (t : Ty) : Prop :=
  ∀ ⦃t' : Ty⦄ ⦃n n' : Nat⦄ ⦃r r' : List Char⦄, t'.IsReadable → closesVariant r = true →
    closesVariant r' = true →
    t.operandChars ++ (brackets n ++ r) = t'.operandChars ++ (brackets n' ++ r') →
    arrayed n t = arrayed n' t' ∧ r = r'

/-- The same for types that are no array types, whatever is behind them. -/
def Ty.CoreEnds (t : Ty) : Prop :=
  ∀ ⦃t' : Ty⦄ ⦃s s' : List Char⦄, t'.IsReadable → (∀ u, t' ≠ .array u) →
    closesOperand s = true → closesOperand s' = true →
    t.operandChars ++ s = t'.operandChars ++ s' → t = t' ∧ s = s'

/-- **A type says where it ends**, in a place where no brackets follow. -/
def Ty.TypeEnds (t : Ty) : Prop :=
  ∀ ⦃t' : Ty⦄ ⦃r r' : List Char⦄, t'.IsReadable → closesType r = true → closesType r' = true →
    t.chars ++ r = t'.chars ++ r' → t = t' ∧ r = r'

/-- An array in front of brackets has its own brackets in front of them. -/
theorem operandChars_array (element : Ty) (s : List Char) :
    (Ty.array element).operandChars ++ s = element.operandChars ++ ('[' :: ']' :: s) := by
  rw [Ty.operandChars_of_not_union rfl, Ty.chars_array, List.append_assoc]
  rfl

/-- A readable type is a type with brackets behind it that is no array type. -/
theorem Ty.IsReadable.exists_core (h : t.IsReadable) :
    ∃ k core, t = Ty.arrayed k core ∧ core.IsReadable ∧ (∀ u, core ≠ .array u) ∧
      ∀ s, t.operandChars ++ s = core.operandChars ++ (brackets k ++ s) := by
  induction h with
  | @array element helement ih =>
    obtain ⟨k, core, hcore, hreadable, hne, hchars⟩ := ih
    refine ⟨k + 1, core, ?_, hreadable, hne, fun s => ?_⟩
    · rw [Ty.arrayed_add, ← hcore]
      rfl
    · rw [operandChars_array, hchars, brackets_append]
      rfl
  | named hname => exact ⟨0, _, rfl, .named hname, nofun, fun _ => rfl⟩
  | generic hname hargs _ => exact ⟨0, _, rfl, .generic hname hargs, nofun, fun _ => rfl⟩
  | tuple helements _ => exact ⟨0, _, rfl, .tuple helements, nofun, fun _ => rfl⟩
  | object hnames htypes _ => exact ⟨0, _, rfl, .object hnames htypes, nofun, fun _ => rfl⟩
  | union hlength hno hvariants _ =>
    exact ⟨0, _, rfl, .union hlength hno hvariants, nofun, fun _ => rfl⟩
  | literal s => exact ⟨0, _, rfl, .literal s, nofun, fun _ => rfl⟩

/-- Brackets behind a type are counted when the type in front of them is known. -/
theorem Ty.CoreEnds.operandEnds (h : t.CoreEnds) : t.OperandEnds := by
  intro t' n n' r r' ht' hr hr' heq
  obtain ⟨k, core, hcore, hreadable, hne, hchars⟩ := ht'.exists_core
  rw [hchars, ← brackets_append] at heq
  obtain ⟨htype, hrest⟩ := h hreadable hne (closesOperand_brackets n hr)
    (closesOperand_brackets (k + n') hr') heq
  obtain ⟨hn, hr⟩ := brackets_append_inj hr hr' hrest
  exact ⟨by rw [htype, hn, hcore, Ty.arrayed_add], hr⟩

theorem Ty.OperandEnds.array (h : t.OperandEnds) : (Ty.array t).OperandEnds := by
  intro t' n n' r r' ht' hr hr' heq
  rw [operandChars_array] at heq
  exact h (n := n + 1) ht' hr hr' heq

/-! ## How types begin -/

/-- The mark that a type begins with if it is neither named nor an array type. -/
def Ty.opening : Ty → Option Char
  | .tuple _ => some '['
  | .object _ => some '\x7b'
  | .union _ => some '('
  | .literal _ => some '"'
  | _ => none

/-- A character, if it is a mark. -/
def markOf? (c : Char) : Option Char := if isTypeMark c then some c else none

theorem IsTypeName.exists_cons {name : String} (h : IsTypeName name) :
    ∃ c rest, name.toList = c :: rest ∧ isTypeMark c = false := by
  have hne : name.toList ≠ [] := fun he => h.ne_empty (by simpa using he)
  obtain ⟨c, rest, hname⟩ := List.exists_cons_of_ne_nil hne
  exact ⟨c, rest, hname, h.no_mark c (by simp [hname])⟩

/-- A type that is no array type shows its form by its first character. -/
theorem Ty.IsReadable.exists_opening (h : t.IsReadable) (hne : ∀ u, t ≠ .array u) :
    ∃ c rest, t.operandChars = c :: rest ∧ markOf? c = t.opening := by
  cases h with
  | named hname =>
    obtain ⟨c, rest, hchars, hc⟩ := hname.exists_cons
    exact ⟨c, rest, hchars, by simp [markOf?, hc, Ty.opening]⟩
  | @generic name args hname _ =>
    obtain ⟨c, rest, hchars, hc⟩ := hname.exists_cons
    refine ⟨c, rest ++ '<' :: ([',', ' '].intercalate (args.map Ty.chars) ++ ['>']), ?_,
      by simp [markOf?, hc, Ty.opening]⟩
    rw [Ty.operandChars_of_not_union rfl, Ty.chars_generic, hchars, List.cons_append]
  | tuple _ =>
    rw [Ty.operandChars_of_not_union rfl, Ty.chars_tuple]
    exact ⟨_, _, rfl, rfl⟩
  | @object members _ _ =>
    rw [Ty.operandChars_of_not_union rfl]
    cases members with
    | nil => exact ⟨_, _, Ty.chars_object_nil, rfl⟩
    | cons m rest => exact ⟨_, _, Ty.chars_object_cons m rest, rfl⟩
  | union _ _ _ => exact ⟨_, _, rfl, rfl⟩
  | literal s =>
    rw [Ty.operandChars_of_not_union rfl]
    exact ⟨_, _, Ty.chars_literal s, rfl⟩
  | array _ => exact absurd rfl (hne _)

/-- The first character tells the form of a type that is no array. -/
theorem Ty.IsReadable.opening_eq (h : t.IsReadable) (hne : ∀ u, t ≠ .array u)
    (h' : t'.IsReadable) (hne' : ∀ u, t' ≠ .array u)
    (heq : t.operandChars ++ r = t'.operandChars ++ r') : t.opening = t'.opening := by
  obtain ⟨c, rest, hchars, hc⟩ := h.exists_opening hne
  obtain ⟨c', rest', hchars', hc'⟩ := h'.exists_opening hne'
  rw [hchars, hchars'] at heq
  have hsame : c = c' := List.head_eq_of_cons_eq heq
  rw [← hc, ← hc', hsame]

/-- No type begins like what ends a type. -/
theorem Ty.IsReadable.exists_chars_eq_cons (h : t.IsReadable) :
    ∃ c rest, t.chars = c :: rest ∧ c ∉ [' ', ',', ';', '>', ']', ')'] := by
  have hname : ∀ {c : Char}, isTypeMark c = false → c ∉ [' ', ',', ';', '>', ']', ')'] := by
    intro c hc hmem
    have hmark : isTypeMark c = true := List.all_eq_true.1 (by decide) c hmem
    rw [hmark] at hc
    contradiction
  induction h with
  | named hn =>
    obtain ⟨c, rest, hchars, hc⟩ := hn.exists_cons
    exact ⟨c, rest, hchars, hname hc⟩
  | @generic name args hn _ _ =>
    obtain ⟨c, rest, hchars, hc⟩ := hn.exists_cons
    refine ⟨c, rest ++ '<' :: ([',', ' '].intercalate (args.map Ty.chars) ++ ['>']), ?_, hname hc⟩
    rw [Ty.chars_generic, hchars, List.cons_append]
  | tuple _ _ => exact ⟨_, _, Ty.chars_tuple _, by decide⟩
  | @object members _ _ _ =>
    cases members with
    | nil => exact ⟨_, _, Ty.chars_object_nil, by decide⟩
    | cons m rest => exact ⟨_, _, Ty.chars_object_cons m rest, by decide⟩
  | @union variants hlength _ _ ih =>
    cases variants with
    | nil => simp at hlength
    | cons v rest =>
      -- A union begins like its first variant, so it needs one.
      obtain ⟨c, more, hchars, hc⟩ := ih v List.mem_cons_self
      refine ⟨c, more ++ Text.trail [' ', '|', ' '] (rest.map Ty.chars), ?_, hc⟩
      rw [Ty.chars_union, List.map_cons, Text.intercalate_cons, hchars, List.cons_append]
  | literal s =>
    exact ⟨_, _, Ty.chars_literal s, by decide⟩
  | @array element _ ih =>
    obtain ⟨c, more, hchars, hc⟩ := ih
    rw [Ty.chars_array]
    unfold Ty.operandChars
    split
    · exact ⟨_, _, rfl, by decide⟩
    · rw [hchars]
      exact ⟨_, _, rfl, hc⟩

/-- No type starts with what ends a type. -/
theorem Ty.IsReadable.append_ne (h : t.IsReadable) (s : List Char) (hr : closesType r = true) :
    t.chars ++ s ≠ r := by
  obtain ⟨c, rest, hchars, hc⟩ := h.exists_chars_eq_cons
  rintro rfl
  rw [hchars, List.cons_append] at hr
  exact hc (head_of_closesType hr)

/-! ## Unions -/

/-- The variants of a union; of another type it is that type. -/
def Ty.variants : Ty → List Ty
  | .union variants => variants
  | t => [t]

/-- A type that is no union is its own only variant. -/
theorem Ty.variants_of_not_union (h : t.isUnion = false) : t.variants = [t] := by
  cases t with
  | union _ => contradiction
  | _ => rfl

theorem Ty.chars_variants (t : Ty) : t.chars = [' ', '|', ' '].intercalate (t.variants.map chars) := by
  cases t with
  | union variants => exact Ty.chars_union variants
  | _ => simp [Ty.variants]

theorem Ty.IsReadable.of_mem_variants (h : t.IsReadable) {v : Ty} (hv : v ∈ t.variants) :
    v.IsReadable ∧ v.isUnion = false := by
  by_cases hunion : t.isUnion = true
  · cases h with
    | union _ hno hall => exact ⟨hall v hv, hno v hv⟩
    | _ => contradiction
  · rw [Ty.variants_of_not_union (by simpa using hunion), List.mem_singleton] at hv
    subst hv
    exact ⟨h, by simpa using hunion⟩

/-- A union has several variants, so its variants are no other type's. -/
theorem Ty.IsReadable.eq_of_variants (h : t.IsReadable) (h' : t'.IsReadable)
    (heq : t.variants = t'.variants) : t = t' := by
  have hno : ∀ {variants : List Ty} {u : Ty}, (Ty.union variants).IsReadable →
      u.isUnion = false → variants ≠ u.variants := by
    intro variants u hunion hu hvariants
    rw [Ty.variants_of_not_union hu] at hvariants
    subst hvariants
    cases hunion with
    | union hlength _ _ => simp at hlength
  by_cases hunion : t.isUnion = true <;> by_cases hunion' : t'.isUnion = true
  · cases t with
    | union variants =>
      cases t' with
      | union variants' => exact congrArg Ty.union heq
      | _ => contradiction
    | _ => contradiction
  · cases t with
    | union variants => exact absurd heq (hno h (by simpa using hunion'))
    | _ => contradiction
  · cases t' with
    | union variants' => exact absurd heq.symm (hno h' (by simpa using hunion))
    | _ => contradiction
  · rw [Ty.variants_of_not_union (by simpa using hunion),
      Ty.variants_of_not_union (by simpa using hunion')] at heq
    exact List.head_eq_of_cons_eq heq

/-- A type says where it ends if its variants do. -/
theorem Ty.IsReadable.typeEnds (h : t.IsReadable) (hvariants : ∀ v ∈ t.variants, v.OperandEnds) :
    t.TypeEnds := by
  intro t' r r' h' hr hr' heq
  rw [t.chars_variants, t'.chars_variants] at heq
  -- variants have neither parentheses nor brackets behind them
  have hends : ∀ v ∈ t.variants, ∀ v' ∈ t'.variants, ∀ s s', closesVariant s = true →
      closesVariant s' = true → v.chars ++ s = v'.chars ++ s' → v = v' ∧ s = s' := by
    intro v hv v' hv' s s' hs hs' hchars
    obtain ⟨-, hplain⟩ := h.of_mem_variants hv
    obtain ⟨hreadable', hplain'⟩ := h'.of_mem_variants hv'
    rw [← Ty.operandChars_of_not_union hplain, ← Ty.operandChars_of_not_union hplain'] at hchars
    have hbare : v.operandChars ++ (brackets 0 ++ s) = v'.operandChars ++ (brackets 0 ++ s') := hchars
    exact hvariants v hv hreadable' hs hs' hbare
  obtain ⟨hsame, hrest⟩ := Text.intercalate_append_inj (closesVariant_of_closesType hr)
    (closesVariant_of_closesType hr') (fun _ => rfl) (no_bar_in_front hr) (no_bar_in_front hr')
    (fun v hv s => (h.of_mem_variants hv).1.append_ne s hr')
    (fun v hv s => (h'.of_mem_variants hv).1.append_ne s hr) hends heq
  exact ⟨h.eq_of_variants h' hsame, hrest⟩

/-! ## Lists of types and members -/

/-- Types with commas between them, up to a mark that closes the list. -/
theorem typeList_append_inj {types types' : List Ty} {close : Char}
    (hclose : close = '>' ∨ close = ']') (hends : ∀ t ∈ types, t.TypeEnds)
    (hall : ∀ t ∈ types, t.IsReadable) (hall' : ∀ t ∈ types', t.IsReadable)
    (heq : [',', ' '].intercalate (types.map Ty.chars) ++ close :: r =
      [',', ' '].intercalate (types'.map Ty.chars) ++ close :: r') : types = types' ∧ r = r' := by
  have hcloses : ∀ s, closesType (close :: s) = true := by
    rcases hclose with rfl | rfl <;> exact fun _ => rfl
  have hcomma : ∀ s, ¬ [',', ' '] <+: close :: s := by
    rintro s ⟨rest, hrest⟩
    have hhead : ',' = close := List.head_eq_of_cons_eq hrest
    rcases hclose with rfl | rfl <;> exact absurd hhead (by decide)
  obtain ⟨htypes, hrest⟩ := Text.intercalate_append_inj (hcloses r) (hcloses r') (fun _ => rfl)
    (hcomma r) (hcomma r')
    (fun t ht s => (hall t ht).append_ne s (hcloses r'))
    (fun t ht s => (hall' t ht).append_ne s (hcloses r))
    (fun t ht t' ht' s s' hs hs' => hends t ht (hall' t' ht') hs hs') heq
  exact ⟨htypes, List.tail_eq_of_cons_eq hrest⟩

/-- A member ends with its type, and its name ends at the colon. -/
theorem memberChars_append_inj {m m' : Member Ty} (hname : IsTypeName m.name)
    (hname' : IsTypeName m'.name) (hends : m.type.TypeEnds) (htype' : m'.type.IsReadable)
    (hr : closesType r = true) (hr' : closesType r' = true)
    (heq : Ty.memberChars m ++ r = Ty.memberChars m' ++ r') : m = m' ∧ r = r' := by
  obtain ⟨name, isOptional, type⟩ := m
  obtain ⟨name', isOptional', type'⟩ := m'
  unfold Ty.memberChars at heq
  simp only [List.append_assoc, List.cons_append] at heq
  -- a question mark or a colon ends the name
  have hmark : ∀ (b : Bool) (s : List Char),
      ((Ty.optionalMark b).toList ++ ':' :: s).head?.all isTypeMark = true := by
    intro b s
    cases b with
    | true => rfl
    | false => rfl
  obtain ⟨rfl, hrest⟩ := hname.append_inj hname' (hmark _ _) (hmark _ _) heq
  have hsame : isOptional = isOptional' ∧ type.chars ++ r = type'.chars ++ r' := by
    cases isOptional <;> cases isOptional' <;> simp_all [Ty.optionalMark]
  obtain ⟨rfl, htype⟩ := hsame
  obtain ⟨rfl, hr⟩ := hends htype' hr hr' htype
  exact ⟨rfl, hr⟩

/-- The members of an object end where no semicolon follows. -/
theorem memberList_append_inj {members members' : List (Member Ty)}
    (hnames : ∀ m ∈ members, IsTypeName m.name) (hnames' : ∀ m ∈ members', IsTypeName m.name)
    (hends : ∀ m ∈ members, m.type.TypeEnds) (htypes' : ∀ m ∈ members', m.type.IsReadable)
    (heq : [';', ' '].intercalate (members.map Ty.memberChars) ++ ' ' :: '\x7d' :: r =
      [';', ' '].intercalate (members'.map Ty.memberChars) ++ ' ' :: '\x7d' :: r') :
    members = members' ∧ r = r' := by
  have hsemicolon : ∀ s, ¬ [';', ' '] <+: ' ' :: '\x7d' :: s := by
    rintro s ⟨rest, hrest⟩
    exact absurd (List.head_eq_of_cons_eq hrest) (by decide)
  have hbegin : ∀ {m : Member Ty}, IsTypeName m.name → ∀ s u : List Char,
      Ty.memberChars m ++ s ≠ ' ' :: u := by
    intro m hm s u h
    obtain ⟨c, rest, hname, hc⟩ := hm.exists_cons
    rw [Ty.memberChars, hname] at h
    have hblank : c = ' ' := List.head_eq_of_cons_eq h
    subst hblank
    contradiction
  have hbrace : ∀ s, closesType (' ' :: '\x7d' :: s) = true := fun _ => rfl
  obtain ⟨hmembers, hrest⟩ := Text.intercalate_append_inj (hbrace r) (hbrace r') (fun _ => rfl)
    (hsemicolon r) (hsemicolon r')
    (fun m hm s => hbegin (hnames m hm) s _) (fun m hm s => hbegin (hnames' m hm) s _)
    (fun m hm m' hm' s s' hs hs' =>
      memberChars_append_inj (hnames m hm) (hnames' m' hm') (hends m hm) (htypes' m' hm') hs hs')
    heq
  exact ⟨hmembers, List.tail_eq_of_cons_eq (List.tail_eq_of_cons_eq hrest)⟩

/-! ## Every form -/

/-- A name ends at the first mark. -/
theorem Ty.coreEnds_named {name : String} (hname : IsTypeName name) : (Ty.named name).CoreEnds := by
  intro t' s s' h' hne' hs hs' heq
  have hopening := (Ty.IsReadable.named hname).opening_eq nofun h' hne' heq
  obtain ⟨hmark, hangle⟩ := ends_name hs
  cases h' with
  | named hname' =>
    obtain ⟨rfl, hrest⟩ := hname.append_inj hname' hmark (ends_name hs').1 heq
    exact ⟨rfl, hrest⟩
  | generic hname' _ =>
    -- type arguments would follow the name
    rw [Ty.operandChars_of_not_union (t := .generic _ _) rfl, Ty.chars_generic,
      List.append_assoc] at heq
    obtain ⟨-, hrest⟩ := hname.append_inj hname' hmark rfl heq
    exact absurd (congrArg List.head? hrest) hangle
  | array _ => exact absurd rfl (hne' _)
  | _ => simp [Ty.opening] at hopening

/-- Arguments end at the angle that closes them. -/
theorem Ty.coreEnds_generic {name : String} {args : List Ty} (hname : IsTypeName name)
    (hargs : ∀ t ∈ args, t.IsReadable) (hends : ∀ t ∈ args, t.TypeEnds) :
    (Ty.generic name args).CoreEnds := by
  intro t' s s' h' hne' hs hs' heq
  have hopening := (Ty.IsReadable.generic hname hargs).opening_eq nofun h' hne' heq
  rw [Ty.operandChars_of_not_union (t := .generic _ _) rfl, Ty.chars_generic,
    List.append_assoc] at heq
  cases h' with
  | named hname' =>
    obtain ⟨hmark', hangle'⟩ := ends_name hs'
    obtain ⟨-, hrest⟩ := hname.append_inj hname' rfl hmark' heq
    exact absurd (congrArg List.head? hrest).symm hangle'
  | generic hname' hargs' =>
    rw [Ty.operandChars_of_not_union (t := .generic _ _) rfl, Ty.chars_generic,
      List.append_assoc] at heq
    obtain ⟨rfl, hrest⟩ := hname.append_inj hname' rfl rfl heq
    rw [List.cons_append, List.cons_append, List.append_assoc, List.append_assoc] at hrest
    have hlist := List.tail_eq_of_cons_eq hrest
    obtain ⟨rfl, hs⟩ := typeList_append_inj (.inl rfl) hends hargs hargs' hlist
    exact ⟨rfl, hs⟩
  | array _ => exact absurd rfl (hne' _)
  | _ => simp [Ty.opening] at hopening

theorem Ty.coreEnds_tuple {elements : List Ty} (helements : ∀ t ∈ elements, t.IsReadable)
    (hends : ∀ t ∈ elements, t.TypeEnds) : (Ty.tuple elements).CoreEnds := by
  intro t' s s' h' hne' _ _ heq
  have hopening := (Ty.IsReadable.tuple helements).opening_eq nofun h' hne' heq
  cases h' with
  | tuple helements' =>
    rw [Ty.operandChars_of_not_union rfl, Ty.operandChars_of_not_union rfl, Ty.chars_tuple,
      Ty.chars_tuple, List.cons_append, List.cons_append, List.append_assoc,
      List.append_assoc] at heq
    have hlist := List.tail_eq_of_cons_eq heq
    obtain ⟨rfl, hs⟩ := typeList_append_inj (.inr rfl) hends helements helements' hlist
    exact ⟨rfl, hs⟩
  | array _ => exact absurd rfl (hne' _)
  | _ => simp [Ty.opening] at hopening

theorem Ty.coreEnds_object {members : List (Member Ty)} (hnames : ∀ m ∈ members, IsTypeName m.name)
    (htypes : ∀ m ∈ members, m.type.IsReadable) (hends : ∀ m ∈ members, m.type.TypeEnds) :
    (Ty.object members).CoreEnds := by
  intro t' s s' h' hne' _ _ heq
  have hopening := (Ty.IsReadable.object hnames htypes).opening_eq nofun h' hne' heq
  cases h' with
  | @object members' hnames' htypes' =>
    rw [Ty.operandChars_of_not_union rfl, Ty.operandChars_of_not_union rfl] at heq
    cases members with
    | nil =>
      cases members' with
      | nil => exact ⟨rfl, List.append_cancel_left heq⟩
      | cons m' rest' => simp [Ty.chars_object_nil, Ty.chars_object_cons] at heq
    | cons m rest =>
      cases members' with
      | nil => simp [Ty.chars_object_nil, Ty.chars_object_cons] at heq
      | cons m' rest' =>
        rw [Ty.chars_object_cons, Ty.chars_object_cons, List.cons_append, List.cons_append,
          List.cons_append, List.cons_append, List.append_assoc, List.append_assoc] at heq
        have hlist := List.tail_eq_of_cons_eq (List.tail_eq_of_cons_eq heq)
        obtain ⟨hmembers, hs⟩ := memberList_append_inj hnames hnames' hends htypes' hlist
        exact ⟨congrArg Ty.object hmembers, hs⟩
  | array _ => exact absurd rfl (hne' _)
  | _ => simp [Ty.opening] at hopening

/-- A union in front of brackets ends at its parenthesis. -/
theorem Ty.coreEnds_union {variants : List Ty} (h : (Ty.union variants).IsReadable)
    (hends : (Ty.union variants).TypeEnds) : (Ty.union variants).CoreEnds := by
  intro t' s s' h' hne' _ _ heq
  have hopening := h.opening_eq nofun h' hne' heq
  cases t' with
  | union variants' =>
    rw [Ty.operandChars_union, Ty.operandChars_union, List.cons_append, List.cons_append,
      List.append_assoc, List.append_assoc] at heq
    have hinner := List.tail_eq_of_cons_eq heq
    -- the parenthesis that closes the union ends it
    have hparen : ∀ u, closesType (')' :: u) = true := fun _ => rfl
    obtain ⟨htype, hrest⟩ := hends h' (hparen s) (hparen s') hinner
    exact ⟨htype, List.tail_eq_of_cons_eq hrest⟩
  | _ => simp [Ty.opening] at hopening

/-- A literal ends at its quote, whatever marks the string has in it. -/
theorem Ty.coreEnds_literal (text : String) : (Ty.literal text).CoreEnds := by
  intro t' s s' h' hne' _ _ heq
  have hopening := (Ty.IsReadable.literal text).opening_eq nofun h' hne' heq
  cases t' with
  | literal text' =>
    obtain ⟨rfl, hs⟩ := Text.quote_append_inj heq
    exact ⟨rfl, hs⟩
  | _ => simp [Ty.opening] at hopening

/-- **Readable types say where they end**, in front of brackets and elsewhere. -/
theorem Ty.IsReadable.ends (h : t.IsReadable) : t.OperandEnds ∧ t.TypeEnds := by
  -- a type that is no union has itself for its only variant
  have hboth : ∀ {u : Ty}, u.IsReadable → u.isUnion = false → u.OperandEnds →
      u.OperandEnds ∧ u.TypeEnds := by
    intro u hu hunion hends
    refine ⟨hends, hu.typeEnds fun v hv => ?_⟩
    rw [Ty.variants_of_not_union hunion, List.mem_singleton] at hv
    exact hv ▸ hends
  induction h with
  | named hname => exact hboth (.named hname) rfl (Ty.coreEnds_named hname).operandEnds
  | generic hname hargs ih =>
    exact hboth (.generic hname hargs) rfl
      (Ty.coreEnds_generic hname hargs fun t ht => (ih t ht).2).operandEnds
  | tuple helements ih =>
    exact hboth (.tuple helements) rfl
      (Ty.coreEnds_tuple helements fun t ht => (ih t ht).2).operandEnds
  | object hnames htypes ih =>
    exact hboth (.object hnames htypes) rfl
      (Ty.coreEnds_object hnames htypes fun m hm => (ih m hm).2).operandEnds
  | union hlength hno hvariants ih =>
    have hunion := Ty.IsReadable.union hlength hno hvariants
    have hends := hunion.typeEnds fun v hv => (ih v hv).1
    exact ⟨(Ty.coreEnds_union hunion hends).operandEnds, hends⟩
  | literal s => exact hboth (.literal s) rfl (Ty.coreEnds_literal s).operandEnds
  | array helement ih => exact hboth (.array helement) rfl ih.1.array

/-- Types of one text are equal, since nothing follows either of them. -/
theorem Ty.TypeEnds.eq_of_text (h : t.TypeEnds) (h' : t'.IsReadable) (heq : t.text = t'.text) :
    t = t' := by
  have hchars : t.chars ++ [] = t'.chars ++ [] := by rw [Ty.chars, Ty.chars, heq]
  exact (h h' rfl rfl hchars).1

/-- **A text is the text of one readable type only.** -/
theorem Ty.readable_text_eq_iff (h : t.IsReadable) (h' : t'.IsReadable) :
    t.text = t'.text ↔ t = t' := by
  constructor
  · intro heq
    exact h.ends.2.eq_of_text h' heq
  · intro heq
    rw [heq]

end

/-! ## Identifiers -/

/-- Letters, digits, `_`, `$` and `.` are no marks. -/
theorem isTypeName_of_letters {name : String} (hne : name ≠ "")
    (h : name.toList.all (fun c => c.isAlphanum || ['_', '$', '.'].contains c) = true) :
    IsTypeName name := by
  have hmarks : typeMarks.all (fun d => !(d.isAlphanum || ['_', '$', '.'].contains d)) = true := by
    decide
  refine ⟨hne, fun c hc => Bool.eq_false_iff.2 fun hmark => ?_⟩
  have hmem : c ∈ typeMarks := List.contains_iff_mem.1 hmark
  have hnot := List.all_eq_true.1 hmarks c hmem
  rw [List.all_eq_true.1 h c hc] at hnot
  contradiction

/-- A list of alternatives, and an alternative that is a list. The string literal looks like the end
of the list. -/
def listOfAlternatives : Ty := .array (.union [.literal ")[] | ", .named "Coin.State"])

def alternativeList : Ty := .union [.literal ")[] | ", .array (.named "Coin.State")]

theorem Ty.readable_text_eq_iff_alternatives :
    listOfAlternatives.IsReadable ∧ alternativeList.IsReadable ∧
      (listOfAlternatives.text = alternativeList.text ↔ listOfAlternatives = alternativeList) := by
  have hstate : (Ty.named "Coin.State").IsReadable :=
    .named (isTypeName_of_letters (by decide) (by decide))
  have hlist : listOfAlternatives.IsReadable :=
    .array (.union (by decide) (by decide) (by simp [hstate, Ty.IsReadable.literal]))
  have halternative : alternativeList.IsReadable :=
    .union (by decide) (by decide) (by simp [hstate.array, Ty.IsReadable.literal])
  exact ⟨hlist, halternative, Ty.readable_text_eq_iff hlist halternative⟩

example : listOfAlternatives.text = "(\")[] | \" | Coin.State)[]" := by decide

end TypedBindings.TypeScript
