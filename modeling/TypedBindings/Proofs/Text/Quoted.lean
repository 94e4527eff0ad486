import Mathlib.Tactic.SplitIfs
import TypedBindings.Text.Quoted

/-!
# Quoted text reads back

* `readQuotedFrom_escape`: the written form of a character reads as that character.
* `readQuoted_escape`: so does that of a whole text, up to its closing quote.
* `quote_append_inj`: a quoted text says where it ends.
-/

namespace TypedBindings.Text

/-- The digits of a control character name it. -/
theorem unit?_hexByte {n : Nat} (h : n < 256) :
    unit? '0' '0' (hexDigit (n / 16)) (hexDigit (n % 16)) = some n := by
  have hhigh := hexValue?_hexDigit (n := n / 16) (by omega)
  have hlow := hexValue?_hexDigit (n := n % 16) (by omega)
  have hzero : hexValue? '0' = some 0 := by decide
  simp only [unit?, hexNumber?, List.foldlM_cons, List.foldlM_nil, hhigh, hlow, hzero,
    Option.map_some, Option.bind_eq_bind, Option.bind_some, Option.pure_def]
  congr 1
  omega

/-- A character that is escaped by its number reads as itself. -/
theorem readQuotedFrom_unit {c : Char} (h : c.toNat < 32) (rest : List Char) :
    readQuotedFrom none ('\\' :: 'u' :: '0' :: '0' :: hexDigit (c.toNat / 16) ::
      hexDigit (c.toNat % 16) :: rest) = (readQuotedFrom none rest).cons c := by
  -- a control character is no half of a pair of units
  have hleading : isLeading c.toNat = false := by
    simp only [isLeading, Bool.and_eq_false_iff, decide_eq_false_iff_not]; omega
  have htrailing : isTrailing c.toNat = false := by
    simp only [isTrailing, Bool.and_eq_false_iff, decide_eq_false_iff_not]; omega
  rw [readQuotedFrom, unit?_hexByte (by omega)]
  simp only [hleading, htrailing, Bool.false_eq_true, if_false, Char.ofNat_toNat]

/-- A character that stands for itself reads as itself. -/
theorem readQuotedFrom_plain {c : Char} (hquote : c ≠ '"') (hslash : c ≠ '\\')
    (hcontrol : ¬ c.toNat < 32) (rest : List Char) :
    readQuotedFrom none (c :: rest) = (readQuotedFrom none rest).cons c := by
  rw [readQuotedFrom.eq_def]
  split
  · next h => cases h
  · next h => cases h; exact absurd rfl hquote
  · next h => cases h; exact absurd rfl hslash
  · next h => cases h; exact absurd rfl hslash
  · next h => cases h; simp [hcontrol, hslash, settle]

/-- **The written form of a character reads as that character.** -/
theorem readQuotedFrom_escape (c : Char) (rest : List Char) :
    readQuotedFrom none (escape c ++ rest) = (readQuotedFrom none rest).cons c := by
  unfold escape
  split_ifs with hquote hslash hback htab hline hfeed hreturn hcontrol
  case pos => subst hquote; rfl
  case pos => subst hslash; rfl
  case pos => subst hback; rfl
  case pos => subst htab; rfl
  case pos => subst hline; rfl
  case pos => subst hfeed; rfl
  case pos => subst hreturn; rfl
  case pos => exact readQuotedFrom_unit hcontrol rest
  case neg => exact readQuotedFrom_plain hquote hslash hcontrol rest

/-- **A text that is written reads back**, up to its closing quote. -/
theorem readQuoted_escape (cs rest : List Char) :
    readQuoted (cs.flatMap escape ++ '"' :: rest) = .text cs rest := by
  unfold readQuoted
  induction cs with
  | nil => rfl
  | cons c cs ih =>
    rw [List.flatMap_cons, List.append_assoc, readQuotedFrom_escape, ih]
    rfl

theorem toList_quote (s : String) :
    (quote s).toList = '"' :: s.toList.flatMap escape ++ ['"'] := String.toList_ofList

/-- **Quoted texts are one if they begin one text**, and what follows them is one too. -/
theorem quote_append_inj {s t : String} {r r' : List Char}
    (h : (quote s).toList ++ r = (quote t).toList ++ r') : s = t ∧ r = r' := by
  rw [toList_quote, toList_quote, List.cons_append, List.cons_append, List.cons_append,
    List.cons_append, List.append_assoc, List.append_assoc, List.singleton_append,
    List.singleton_append] at h
  have hread := congrArg readQuoted (List.tail_eq_of_cons_eq h)
  rw [readQuoted_escape, readQuoted_escape, Quoted.text.injEq] at hread
  exact ⟨String.toList_injective hread.1, hread.2⟩

/-- A digit stands for itself. -/
theorem escape_of_isDigit {c : Char} (hc : c.isDigit = true) : escape c = [c] := by
  obtain ⟨hlow, hhigh⟩ := Char.isDigit_iff_toNat.1 hc
  have hlow : 48 ≤ c.toNat := hlow
  have hhigh : c.toNat ≤ 57 := hhigh
  have hne : ∀ d : Char, d.toNat < 48 ∨ 57 < d.toNat → c ≠ d := by
    rintro d hd rfl
    omega
  unfold escape
  rw [if_neg (hne _ (by decide)), if_neg (hne _ (by decide)), if_neg (hne _ (by decide)),
    if_neg (hne _ (by decide)), if_neg (hne _ (by decide)), if_neg (hne _ (by decide)),
    if_neg (hne _ (by decide)), if_neg (by omega)]

end TypedBindings.Text
