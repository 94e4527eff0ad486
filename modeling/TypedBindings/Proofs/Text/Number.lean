import TypedBindings.Text.Blank
import TypedBindings.Text.Number

/-!
# Spellings of numbers

A number is written by its digits, without a sign for natural numbers and without a zero in front of
others. A reader takes more: blanks around the number, a sign, zeros in front, and `_` behind the
first digit.

* `IsDecimal`: the written form, and `isDecimal_toDigits`: that of every number.
* `count?_toDigits`: a count is read from its written form.
* `natural_eq_ok_iff`, `integer_eq_ok_iff`: the spellings that the readers take, and their values.
* `isPadded_trim`, `IsPadded.trim_eq`: a text is its trimmed form with blanks around it.
-/

namespace TypedBindings.Text

/-! ## Written numbers -/

/-- Decimal digits of a number, without a zero in front of others. -/
structure IsDecimal (digits : List Char) (n : Nat) : Prop where
  ne_nil : digits ≠ []
  isDigit : ∀ c ∈ digits, c.isDigit = true
  value : digitsValue digits = n
  no_zero : digits.head? = some '0' → digits = ['0']

/-- Written digits have the value that they were written for. -/
theorem digitsValue_toDigits (n : Nat) : digitsValue (Nat.toDigits 10 n) = n :=
  Nat.ofDigitChars_ten_toDigits

theorem isDigit_toDigits {n : Nat} {c : Char} (hc : c ∈ Nat.toDigits 10 n) : c.isDigit = true :=
  Nat.isDigit_of_mem_toDigits (by decide) (by decide) hc

/-- Only zero is written with a zero in front. -/
theorem toDigits_of_head_zero (n : Nat) (h : (Nat.toDigits 10 n).head? = some '0') :
    Nat.toDigits 10 n = ['0'] := by
  induction n using Nat.strongRecOn with
  | ind n ih =>
    rw [Nat.toDigits_eq_if (by decide)] at h ⊢
    split
    · next hn => rw [if_pos hn] at h; simpa using h
    · next hn =>
      rw [if_neg hn, List.head?_append] at h
      -- a zero in front would be the front of `n / 10`, which is not zero
      obtain ⟨d, rest, hd⟩ := List.exists_cons_of_ne_nil (Nat.toDigits_ne_nil (b := 10) (n := n / 10))
      have hfront := ih (n / 10) (by omega) (by rw [hd] at h ⊢; exact h)
      have hvalue := digitsValue_toDigits (n / 10)
      rw [hfront] at hvalue
      have hzero : digitsValue ['0'] = 0 := rfl
      omega

/-- A number is written by its digits. -/
theorem isDecimal_toDigits (n : Nat) : IsDecimal (Nat.toDigits 10 n) n where
  ne_nil := Nat.toDigits_ne_nil
  isDigit _ hc := isDigit_toDigits hc
  value := digitsValue_toDigits n
  no_zero := toDigits_of_head_zero n

theorem toList_toString_nat (n : Nat) : (toString n).toList = Nat.toDigits 10 n := Nat.toList_repr

/-- An integer is written with a minus sign only if it is negative. -/
theorem toList_toString_int (n : Int) :
    (toString n).toList =
      if n < 0 then '-' :: Nat.toDigits 10 n.natAbs else Nat.toDigits 10 n.natAbs := by
  rw [Int.toString_eq_repr, Int.repr_eq_if]
  by_cases hn : n < 0
  · have habs : (-n).toNat = n.natAbs := by omega
    rw [if_neg (by omega), if_pos hn, String.toList_append, Nat.toList_repr, habs]
    rfl
  · have habs : n.toNat = n.natAbs := by omega
    rw [if_pos (by omega), if_neg hn, Nat.toList_repr, habs]

/-- A count that fits a word is read from its digits. -/
theorem count?_toDigits {n : Nat} (h : n < wordSize) : count? (Nat.toDigits 10 n) = some n := by
  have hplus : ∀ rest, Nat.toDigits 10 n ≠ '+' :: rest := by
    intro rest he
    have hdigit : '+'.isDigit = true := isDigit_toDigits (he ▸ List.mem_cons_self)
    contradiction
  have hall : (Nat.toDigits 10 n).all Char.isDigit = true :=
    List.all_eq_true.2 fun _ hc => isDigit_toDigits hc
  unfold count?
  split
  · next he => exact absurd he (hplus _)
  · simp [hall, digitsValue_toDigits, h]

/-! ## Spellings -/

/-- Digits, with `_` anywhere behind the first. -/
def SpellsDigits (cs : List Char) (n : Nat) : Prop :=
  ∃ d rest, cs = d :: rest ∧ d.isDigit = true ∧ (∀ c ∈ rest, c.isDigit = true ∨ c = '_') ∧
    n = digitsValue (cs.filter Char.isDigit)

/-- Digits, with a `+` in front or not. -/
def SpellsNatural (cs : List Char) (n : Nat) : Prop :=
  SpellsDigits cs n ∨ ∃ digits, cs = '+' :: digits ∧ SpellsDigits digits n

/-- Digits, with a sign in front or not. -/
def SpellsInteger (cs : List Char) (n : Int) : Prop :=
  (∃ k : Nat, SpellsNatural cs k ∧ n = k) ∨
    ∃ digits, ∃ k : Nat, cs = '-' :: digits ∧ SpellsDigits digits k ∧ n = -k

theorem IsDecimal.spells {digits : List Char} {n : Nat} (h : IsDecimal digits n) :
    SpellsDigits digits n := by
  obtain ⟨d, rest, rfl⟩ := List.exists_cons_of_ne_nil h.ne_nil
  refine ⟨d, rest, rfl, h.isDigit d List.mem_cons_self,
    fun c hc => Or.inl (h.isDigit c (List.mem_cons_of_mem _ hc)), ?_⟩
  rw [List.filter_eq_self.2 h.isDigit, h.value]

/-- Digits are read exactly if they are spelled with separators behind the first or without. -/
theorem separatedDigits_eq_ok_iff {cs : List Char} {n : Nat} :
    separatedDigits cs = .ok n ↔ SpellsDigits cs n := by
  cases cs with
  | nil => simp [separatedDigits, SpellsDigits]
  | cons c rest =>
    rw [separatedDigits, SpellsDigits]
    by_cases hc : c.isDigit && rest.all (fun d => d.isDigit || d == '_')
    · rw [if_pos hc]
      simp only [Bool.and_eq_true, List.all_eq_true, Bool.or_eq_true, beq_iff_eq] at hc
      have hkept : (c :: rest).filter Char.isDigit = c :: rest.filter Char.isDigit :=
        List.filter_cons_of_pos hc.1
      constructor
      · intro h; cases h; exact ⟨c, rest, rfl, hc.1, hc.2, by rw [hkept]⟩
      · rintro ⟨_, _, -, -, -, rfl⟩; rw [hkept]
    · rw [if_neg hc]
      constructor
      · intro h; cases h
      · rintro ⟨_, _, he, hd, hrest, -⟩
        cases he
        exact absurd (by simpa [hd] using hrest) hc

/-- A sign is no digit. -/
theorem not_spellsDigits {c : Char} (hc : c.isDigit = false) (rest : List Char) (n : Nat) :
    ¬ SpellsDigits (c :: rest) n := by
  rintro ⟨_, _, he, hd, -, -⟩
  cases he
  rw [hc] at hd; cases hd

/-- Digits start with a digit. -/
theorem SpellsDigits.head?_ne {cs : List Char} {n : Nat} (h : SpellsDigits cs n) {c : Char}
    (hc : c.isDigit = false) : cs.head? ≠ some c := by
  obtain ⟨d, rest, rfl, hd, -, -⟩ := h
  intro he
  cases he
  rw [hc] at hd; cases hd

/-- **The natural numbers that are read**, and their values. -/
theorem natural_eq_ok_iff {cs : List Char} {n : Nat} :
    natural cs = .ok n ↔ SpellsNatural cs n := by
  unfold natural SpellsNatural
  rw [separatedDigits_eq_ok_iff]
  cases cs with
  | nil => simp [dropSign]
  | cons c rest =>
    by_cases hplus : c = '+'
    · subst hplus
      have hsign := not_spellsDigits (c := '+') rfl rest n
      by_cases hrest : rest.head? = some '+'
      · -- the second `+` is left where a digit is wanted
        simp only [dropSign, hrest, ne_eq, not_true_eq_false, and_false, if_false, Option.getD_none,
          hsign, false_or, List.cons.injEq, true_and, exists_eq_left', false_iff]
        exact fun h => h.head?_ne rfl hrest
      · simp [dropSign, hrest, hsign]
    · simp [dropSign, hplus]

/-- A natural number without a plus sign is spelled by digits alone. -/
theorem SpellsNatural.spellsDigits {cs : List Char} {n : Nat} (h : SpellsNatural cs n)
    (hplus : cs.head? ≠ some '+') : SpellsDigits cs n := by
  rcases h with h | ⟨digits, rfl, -⟩
  · exact h
  · exact absurd rfl hplus

/-- Behind a minus stand digits, and no other sign. -/
theorem spellsNatural_minus {rest : List Char} {k : Nat} :
    SpellsNatural ((dropSign '-' ('-' :: rest)).getD ('-' :: rest)) k ↔ SpellsDigits rest k := by
  by_cases hrest : rest.head? = some '+'
  · have hleft : (dropSign '-' ('-' :: rest)).getD ('-' :: rest) = '-' :: rest := by
      simp [dropSign, hrest]
    rw [hleft]
    constructor
    · intro h
      -- the minus is left where a digit is wanted
      exact absurd (h.spellsDigits (by simp)) (not_spellsDigits rfl rest k)
    · intro h
      exact absurd hrest (h.head?_ne rfl)
  · have hleft : (dropSign '-' ('-' :: rest)).getD ('-' :: rest) = rest := by
      simp [dropSign, hrest]
    rw [hleft]
    exact ⟨fun h => h.spellsDigits hrest, Or.inl⟩

/-- Behind a minus sign no other sign is read. -/
theorem integer_minus_eq_ok_iff {rest : List Char} {n : Int} :
    integer ('-' :: rest) = .ok n ↔ ∃ k : Nat, SpellsDigits rest k ∧ n = -k := by
  simp only [← spellsNatural_minus, ← natural_eq_ok_iff]
  unfold integer
  cases natural ((dropSign '-' ('-' :: rest)).getD ('-' :: rest)) with
  | error e => simp [Except.map, bind, Except.bind]
  | ok k => simp [Except.map, bind, Except.bind, pure, Except.pure, eq_comm]

/-- Without a minus sign an integer is read as a natural number. -/
theorem integer_eq_ok_iff_of_ne {cs : List Char} {n : Int} (h : cs.head? ≠ some '-') :
    integer cs = .ok n ↔ ∃ k : Nat, SpellsNatural cs k ∧ n = k := by
  simp only [← natural_eq_ok_iff]
  unfold integer
  split
  · exact absurd rfl h
  · cases natural cs with
    | error e => simp [Except.map, bind, Except.bind]
    | ok k => simp [Except.map, bind, Except.bind, pure, Except.pure, eq_comm]

/-- **The integers that are read**, and their values. -/
theorem integer_eq_ok_iff {cs : List Char} {n : Int} :
    integer cs = .ok n ↔ SpellsInteger cs n := by
  unfold SpellsInteger
  by_cases hminus : cs.head? = some '-'
  · obtain ⟨rest, rfl⟩ := List.head?_eq_some_iff.1 hminus
    have hsign : ∀ k, ¬ SpellsNatural ('-' :: rest) k := fun k h =>
      not_spellsDigits rfl rest k (h.spellsDigits (by simp))
    rw [integer_minus_eq_ok_iff]
    simp only [hsign, false_and, exists_false, false_or, List.cons.injEq, true_and]
    constructor
    · rintro ⟨k, hk, hn⟩; exact ⟨rest, k, rfl, hk, hn⟩
    · rintro ⟨_, k, rfl, hk, hn⟩; exact ⟨k, hk, hn⟩
  · rw [integer_eq_ok_iff_of_ne hminus]
    refine ⟨Or.inl, ?_⟩
    rintro (hk | ⟨digits, k, rfl, -, -⟩)
    · exact hk
    · exact absurd rfl hminus

/-! ## Blanks around a number -/

theorem isBlank_of_isDigit {c : Char} (hc : c.isDigit = true) : isBlank c = false := by
  obtain ⟨hlow, hhigh⟩ := Char.isDigit_iff_toNat.1 hc
  have hlow : 48 ≤ c.toNat := hlow
  have hhigh : c.toNat ≤ 57 := hhigh
  unfold isBlank
  simp only [Bool.or_eq_false_iff, Bool.and_eq_false_iff, decide_eq_false_iff_not,
    beq_eq_false_iff_ne]
  omega

/-- A text with blanks around it. -/
def IsPadded (body cs : List Char) : Prop :=
  ∃ front back, cs = front ++ body ++ back ∧ (∀ c ∈ front, isBlank c = true) ∧
    ∀ c ∈ back, isBlank c = true

theorem isPadded_self (body : List Char) : IsPadded body body :=
  ⟨[], [], (List.append_nil body).symm, List.forall_mem_nil _, List.forall_mem_nil _⟩

/-- What is trimmed off the front is blank. -/
theorem exists_trimFront (cs : List Char) :
    ∃ front, cs = front ++ trimFront cs ∧ ∀ c ∈ front, isBlank c = true :=
  ⟨cs.takeWhile isBlank, List.takeWhile_append_dropWhile.symm,
    List.all_eq_true.1 List.all_takeWhile⟩

/-- A text is its trimmed form with blanks around it. -/
theorem isPadded_trim (cs : List Char) : IsPadded (trim cs) cs := by
  obtain ⟨front, hfront, hblank⟩ := exists_trimFront cs
  obtain ⟨back, hback, hblank'⟩ := exists_trimFront (trimFront cs).reverse
  refine ⟨front, back.reverse, ?_, hblank, fun c hc => hblank' c (List.mem_reverse.1 hc)⟩
  have hrest : trimFront cs = trim cs ++ back.reverse := by
    have h := congrArg List.reverse hback
    rwa [List.reverse_append, List.reverse_reverse] at h
  rw [List.append_assoc, ← hrest]
  exact hfront

/-- Trimming stops at the first character that is not blank. -/
theorem trimFront_append {front body : List Char} (hfront : ∀ c ∈ front, isBlank c = true)
    (hbody : ∀ c ∈ body.head?, isBlank c = false) : trimFront (front ++ body) = trimFront body ∧
      trimFront body = body := by
  refine ⟨List.dropWhile_append_of_pos hfront, ?_⟩
  cases body with
  | nil => rfl
  | cons c rest => simp [trimFront, hbody c rfl]

/-- A text without blanks is what is left when blanks around it are trimmed. -/
theorem IsPadded.trim_eq {body cs : List Char} (h : IsPadded body cs) (hne : body ≠ [])
    (hbody : ∀ c ∈ body, isBlank c = false) : trim cs = body := by
  obtain ⟨front, back, rfl, hfront, hback⟩ := h
  -- no blank stands at either end of the body, so trimming stops there
  have hhead : ∀ c ∈ (body ++ back).head?, isBlank c = false := by
    obtain ⟨c, rest, rfl⟩ := List.exists_cons_of_ne_nil hne
    rintro _ ⟨⟩
    exact hbody c List.mem_cons_self
  have hlast : ∀ c ∈ body.reverse.head?, isBlank c = false := fun c hc =>
    hbody c (List.mem_reverse.1 (List.mem_of_mem_head? hc))
  have hback' : ∀ c ∈ back.reverse, isBlank c = true := fun c hc =>
    hback c (List.mem_reverse.1 hc)
  obtain ⟨hdrop, hkeep⟩ := trimFront_append hfront hhead
  obtain ⟨hdrop', hkeep'⟩ := trimFront_append hback' hlast
  unfold trim
  rw [List.append_assoc, hdrop, hkeep, List.reverse_append, hdrop', hkeep', List.reverse_reverse]

theorem SpellsDigits.solid {cs : List Char} {n : Nat} (h : SpellsDigits cs n) :
    cs ≠ [] ∧ ∀ c ∈ cs, isBlank c = false := by
  obtain ⟨d, rest, rfl, hd, hrest, -⟩ := h
  refine ⟨List.cons_ne_nil _ _, fun c hc => ?_⟩
  rcases List.mem_cons.1 hc with rfl | hc
  · exact isBlank_of_isDigit hd
  · rcases hrest c hc with hc | rfl
    · exact isBlank_of_isDigit hc
    · rfl

theorem SpellsNatural.solid {cs : List Char} {n : Nat} (h : SpellsNatural cs n) :
    cs ≠ [] ∧ ∀ c ∈ cs, isBlank c = false := by
  rcases h with h | ⟨digits, rfl, h⟩
  · exact h.solid
  · exact ⟨List.cons_ne_nil _ _, List.forall_mem_cons.2 ⟨rfl, h.solid.2⟩⟩

/-- The spelling of an integer has no blanks that could be trimmed. -/
theorem SpellsInteger.solid {cs : List Char} {n : Int} (h : SpellsInteger cs n) :
    cs ≠ [] ∧ ∀ c ∈ cs, isBlank c = false := by
  rcases h with ⟨k, h, -⟩ | ⟨digits, k, rfl, h, -⟩
  · exact h.solid
  · exact ⟨List.cons_ne_nil _ _, List.forall_mem_cons.2 ⟨rfl, h.solid.2⟩⟩

/-- What a reader takes after trimming is what it takes with blanks around it. -/
theorem trim_spells_iff {α : Type} {spells : List Char → α → Prop} {n : α}
    (hsolid : ∀ {cs}, spells cs n → cs ≠ [] ∧ ∀ c ∈ cs, isBlank c = false) (cs : List Char) :
    spells (trim cs) n ↔ ∃ body, IsPadded body cs ∧ spells body n := by
  constructor
  · intro h; exact ⟨trim cs, isPadded_trim cs, h⟩
  · rintro ⟨body, hpadded, h⟩
    rwa [hpadded.trim_eq (hsolid h).1 (hsolid h).2]

/-! ## Written numbers are spelled -/

/-- A spelling stands for one integer. -/
theorem SpellsInteger.unique {cs : List Char} {m n : Int} (hm : SpellsInteger cs m)
    (hn : SpellsInteger cs n) : m = n := by
  have heq := (integer_eq_ok_iff.2 hm).symm.trans (integer_eq_ok_iff.2 hn)
  cases heq
  rfl

/-- Canonical digits are one of the spellings. -/
theorem IsDecimal.spellsInteger {digits : List Char} {n : Int} (h : IsDecimal digits n.natAbs) :
    SpellsInteger (if n < 0 then '-' :: digits else digits) n := by
  split
  · next hneg =>
    refine Or.inr ⟨_, n.natAbs, rfl, h.spells, ?_⟩
    rw [Int.ofNat_natAbs_of_nonpos (Int.le_of_lt hneg), Int.neg_neg]
  · next hnat =>
    exact Or.inl ⟨n.natAbs, Or.inl h.spells, (Int.natAbs_of_nonneg (Int.not_lt.1 hnat)).symm⟩

theorem spellsInteger_toString (n : Int) : SpellsInteger (toString n).toList n :=
  toList_toString_int n ▸ (isDecimal_toDigits n.natAbs).spellsInteger

/-- What is written spells its own integer and no other. -/
theorem spellsInteger_toString_iff {k n : Int} :
    SpellsInteger (toString k).toList n ↔ k = n :=
  ⟨fun h => (spellsInteger_toString k).unique h, fun h => h ▸ spellsInteger_toString k⟩

theorem toString_int_inj {m n : Int} : toString m = toString n ↔ m = n := by
  refine ⟨fun h => ?_, congrArg toString⟩
  rw [← spellsInteger_toString_iff, h]
  exact spellsInteger_toString n

/-- A negative integer is not written as a natural number. -/
theorem spellsNatural_toString_iff {k : Int} {n : Nat} :
    SpellsNatural (toString k).toList n ↔ k = n := by
  constructor
  · intro h; exact spellsInteger_toString_iff.1 (Or.inl ⟨n, h, rfl⟩)
  · rintro rfl
    rw [toList_toString_int, if_neg (by omega)]
    exact Or.inl (isDecimal_toDigits n).spells

/-- Nothing is trimmed off a written integer. -/
theorem trim_toString_int (k : Int) : trim (toString k).toList = (toString k).toList := by
  have hsolid := (spellsInteger_toString k).solid
  exact (isPadded_self _).trim_eq hsolid.1 hsolid.2

end TypedBindings.Text
