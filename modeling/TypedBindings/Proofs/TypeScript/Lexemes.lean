import Mathlib.Data.List.Chain
import TypedBindings.Proofs.TypeScript.Arrangement

/-!
# Tokens from texts

The text of an operator tree is read from its end: blanks and line breaks go, signs stand alone, and
characters of one kind belong together. A layout may not let two words touch, so its words bring
their blanks along here.

* `lexemes`: the words, operators and signs of a text.
* `Token.spaced`, `Token.Touches`: tokens with their blanks, and those that may not be neighbours.
* `Arranged.lexemes_eq`: the lexemes of an arrangement are its tokens.
* `readTokens`: the tokens of a text.
-/

namespace TypedBindings.TypeScript

/-! ## Lexemes -/

/-- What a character belongs to. -/
inductive CharKind where
  | blank
  | sign
  | operator
  | word
deriving DecidableEq, Repr

def charKind (c : Char) : CharKind :=
  if [' ', '\n'].contains c then .blank
  else if ['(', ')', '[', ']', ',', '.', '?', ':'].contains c then .sign
  else if ['=', '>', '|', '+'].contains c then .operator
  else .word

/-- Whether characters of a kind that stand together belong together. -/
def CharKind.joins : CharKind → Bool
  | .operator | .word => true
  | .blank | .sign => false

/-- Puts a character in front of the first of some lexemes. -/
def lengthen (c : Char) : List (List Char) → List (List Char)
  | [] => [[c]]
  | lexeme :: rest => (c :: lexeme) :: rest

/-- The words, operators and signs of a text. A comma in front of a bracket that closes is none. -/
def lexemes : List Char → List (List Char)
  | [] => []
  | c :: rest =>
    let behind := lexemes rest
    if charKind c = .blank ∨ c = ',' ∧ behind.head? = some [']'] then behind
    else if (charKind c).joins ∧ rest.head?.map charKind = some (charKind c) then lengthen c behind
    else [c] :: behind

section

variable {c : Char} {cs : List Char} {kind : CharKind}

theorem lexemes_blank (hc : charKind c = .blank) : lexemes (c :: cs) = lexemes cs := by
  rw [lexemes, if_pos (Or.inl hc)]

theorem lexemes_comma (h : (lexemes cs).head? = some [']']) :
    lexemes (',' :: cs) = lexemes cs := by
  rw [lexemes, if_pos (Or.inr ⟨rfl, h⟩)]

theorem lexemes_sign (hc : charKind c = .sign)
    (h : ¬ (c = ',' ∧ (lexemes cs).head? = some [']'])) : lexemes (c :: cs) = [c] :: lexemes cs := by
  have hskip : ¬ (charKind c = .blank ∨ c = ',' ∧ (lexemes cs).head? = some [']']) := by
    rw [hc]
    simpa using h
  have hjoin : ¬ ((charKind c).joins = true ∧ cs.head?.map charKind = some (charKind c)) := by
    rw [hc]
    simp [CharKind.joins]
  rw [lexemes, if_neg hskip, if_neg hjoin]

/-- **Characters of one kind** are one lexeme, if another kind follows. -/
theorem lexemes_run {run : List Char} (hrun : run ≠ []) (hkind : kind.joins = true)
    (h : ∀ c ∈ run, charKind c = kind) (hend : cs.head?.map charKind ≠ some kind) :
    lexemes (run ++ cs) = run :: lexemes cs := by
  induction run with
  | nil => exact absurd rfl hrun
  | cons c rest ih =>
    have hc : charKind c = kind := h c List.mem_cons_self
    -- A character that joins others is neither a blank nor an extra comma.
    have hskip : ∀ {behind : List (List Char)},
        ¬ (charKind c = .blank ∨ c = ',' ∧ behind.head? = some [']']) := by
      rintro behind (hblank | ⟨rfl, -⟩)
      · rw [← hc, hblank] at hkind
        cases hkind
      · rw [← hc] at hkind
        revert hkind
        decide
    rw [List.cons_append, lexemes, if_neg hskip]
    cases rest with
    | nil =>
      have hjoin : ¬ ((charKind c).joins = true ∧
          ([] ++ cs).head?.map charKind = some (charKind c)) := fun hj => hend (hc ▸ hj.2)
      rw [if_neg hjoin, List.nil_append]
    | cons d more =>
      have hd : charKind d = charKind c := by
        rw [hc]
        exact h d (List.mem_cons_of_mem _ List.mem_cons_self)
      have hjoin : (charKind c).joins = true ∧
          ((d :: more) ++ cs).head?.map charKind = some (charKind c) := by
        rw [hc] at hd ⊢
        exact ⟨hkind, congrArg some hd⟩
      rw [if_pos hjoin, ih (List.cons_ne_nil d more) fun x hx => h x (List.mem_cons_of_mem _ hx)]
      rfl

end

/-! ## Plain tokens -/

/-- **A name that is one word**, and none of the words that stand between operands. -/
structure IsWord (name : String) : Prop where
  ne_empty : name ≠ ""
  plain : ∀ c ∈ name.toList, charKind c = .word
  ne_await : name ≠ "await"
  ne_as : name ≠ "as"

/-- The marks that are one sign. -/
def signMarks : List Mark :=
  [.openParen, .closeParen, .openBracket, .closeBracket, .comma, .colon, .question, .dot]

/-- **A token of an operator tree** whose names are words. -/
inductive Token.IsPlain : Token → Prop
  | name {s : String} : IsWord s → IsPlain (.name s)
  | await : IsPlain (.lead .await)
  | asWord : IsPlain (.mark .asWord)
  | operator (op : Operator) : IsPlain (.mark (.operator op))
  | sign {m : Mark} : m ∈ signMarks → IsPlain (.mark m)

/-- A token with the blanks without which it would touch its neighbours. -/
def Token.spaced : Token → Token
  | .lead word => .name (word.text ++ " ")
  | .mark .asWord => .name " as "
  | t => t

/-- Whether two tokens without blanks between them would be read as something else. -/
def Token.touches : Token → Token → Bool
  | .name _, .name _ => true
  | .name _, .lead _ => true
  | .mark (.operator _), .mark (.operator _) => true
  | .mark .comma, .mark .closeBracket => true
  | _, _ => false

/-- The kind of the characters that a token would go on with. -/
def Token.joinKind : Token → Option CharKind
  | .name _ => some .word
  | .mark (.operator _) => some .operator
  | _ => none

/-- The kind of the character with which a token begins, the blank in front of it included. -/
def Token.beginKind : Token → CharKind
  | .name _ | .lead _ => .word
  | .mark .asWord => .blank
  | .mark (.operator _) => .operator
  | _ => .sign

section

variable {t t' : Token} {cs : List Char}

theorem exists_sign {m : Mark} (h : m ∈ signMarks) :
    ∃ c, (Token.mark m).spaced = .mark m ∧ m.text.toList = [c] ∧ charKind c = .sign ∧
      (c = ',' → m = .comma) := by
  unfold signMarks at h
  simp only [List.mem_cons, List.not_mem_nil, or_false] at h
  rcases h with rfl | rfl | rfl | rfl | rfl | rfl | rfl | rfl <;>
    exact ⟨_, rfl, rfl, by decide, by decide⟩

theorem Operator.charKind_text (op : Operator) :
    op.text.toList.all (charKind · = .operator) = true := by
  cases op <;> decide

/-- **The text of a token is one lexeme**, if it does not touch what follows. -/
theorem lexemes_spaced (ht : t.IsPlain) (hjoin : ∀ kind, t.joinKind = some kind →
      cs.head?.map charKind ≠ some kind)
    (hcomma : t = .mark .comma → (lexemes cs).head? ≠ some [']']) :
    lexemes (t.spaced.text.toList ++ cs) = t.text.toList :: lexemes cs := by
  -- in front of a blank, a word of the language is one lexeme
  have hword : ∀ {w : List Char}, w ≠ [] → w.all (charKind · = .word) = true →
      lexemes (w ++ ' ' :: cs) = w :: lexemes cs := by
    intro w hw hall
    have hplain : ∀ c ∈ w, charKind c = .word := by simpa using hall
    have hblank : (' ' :: cs).head?.map charKind ≠ some .word := by
      rw [List.head?_cons]
      decide
    rw [lexemes_run hw rfl hplain hblank, lexemes_blank (by decide)]
  cases ht with
  | @name s hs =>
    have hnil : s.toList ≠ [] := by simpa using hs.ne_empty
    exact lexemes_run hnil rfl hs.plain (hjoin .word rfl)
  | await => exact hword (w := "await".toList) (by decide) (by decide)
  | asWord =>
    have hfront : lexemes (' ' :: ("as".toList ++ ' ' :: cs)) =
        lexemes ("as".toList ++ ' ' :: cs) := lexemes_blank (by decide)
    exact hfront.trans (hword (by decide) (by decide))
  | operator op =>
    have hnil : op.text.toList ≠ [] := by cases op <;> decide
    have hchars : ∀ c ∈ op.text.toList, charKind c = .operator := by
      simpa using op.charKind_text
    exact lexemes_run hnil rfl hchars (hjoin .operator rfl)
  | @sign m hm =>
    obtain ⟨c, hspaced, htext, hsign, hc⟩ := exists_sign hm
    have hlast : ¬ (c = ',' ∧ (lexemes cs).head? = some [']']) := by
      rintro ⟨hcommaChar, hhead⟩
      exact hcomma (by rw [hc hcommaChar]) hhead
    have hchars : (Token.mark m).text.toList = [c] := htext
    rw [hspaced, hchars]
    exact lexemes_sign hsign hlast

theorem joinKind_sign {m : Mark} (h : m ∈ signMarks) : (Token.mark m).joinKind = none := by
  revert m
  decide

theorem beginKind_sign {m : Mark} (h : m ∈ signMarks) : (Token.mark m).beginKind = .sign := by
  revert m
  decide

theorem Token.IsPlain.exists_begin (ht : t.IsPlain) :
    ∃ c rest, t.spaced.text.toList = c :: rest ∧ charKind c = t.beginKind := by
  cases ht with
  | @name s hs =>
    obtain ⟨c, rest, hcons⟩ : ∃ c rest, s.toList = c :: rest :=
      List.exists_cons_of_ne_nil (by simpa using hs.ne_empty)
    exact ⟨c, rest, hcons, hs.plain c (hcons ▸ List.mem_cons_self)⟩
  | await => exact ⟨'a', "wait ".toList, rfl, by decide⟩
  | asWord => exact ⟨' ', "as ".toList, rfl, by decide⟩
  | operator op => cases op <;> exact ⟨_, _, rfl, by decide⟩
  | sign hm =>
    obtain ⟨c, hspaced, htext, hsign, -⟩ := exists_sign hm
    rw [hspaced, beginKind_sign hm]
    exact ⟨c, [], htext, hsign⟩

/-- A token that does not touch the next one does not go on with it. -/
theorem Token.IsPlain.beginKind_ne (ht : t.IsPlain) (ht' : t'.IsPlain)
    (h : t.touches t' = false) {kind : CharKind} (hkind : t.joinKind = some kind) :
    t'.beginKind ≠ kind := by
  cases ht with
  | name =>
    cases hkind
    cases ht' with
    | name | await => cases h
    | asWord | operator => exact nofun
    | sign hm => rw [beginKind_sign hm]; decide
  | operator op =>
    cases hkind
    cases ht' with
    | operator => cases h
    | name | await | asWord => exact nofun
    | sign hm => rw [beginKind_sign hm]; decide
  | await | asWord => cases hkind
  | sign hm => rw [joinKind_sign hm] at hkind; cases hkind

theorem Token.IsPlain.joins (ht : t.IsPlain) {kind : CharKind} (hkind : t.joinKind = some kind) :
    kind.joins = true := by
  cases ht with
  | name | operator => cases hkind; rfl
  | await | asWord => cases hkind
  | sign hm => rw [joinKind_sign hm] at hkind; cases hkind

end

/-! ## Lexemes of an arrangement -/

/-- Neighbours do not touch. -/
def IsApart (tokens : List Token) : Prop := tokens.IsChain fun t t' => t.touches t' = false

/-- A text that begins with a character of a word or an operator begins with a token. -/
theorem Arranged.exists_head {g g' : Gap} {tokens : List Token} {cs : List Char} {kind : CharKind}
    (h : Arranged g (tokens.map Token.spaced) cs g') (hplain : ∀ t ∈ tokens, t.IsPlain)
    (hkind : kind.joins = true) (hhead : cs.head?.map charKind = some kind) :
    ∃ t rest, tokens = t :: rest ∧ t.beginKind = kind := by
  generalize hspaced : tokens.map Token.spaced = spaced at h
  cases h with
  | done => cases hhead
  | blank | lineBreak | extraComma =>
    rw [← Option.some.inj hhead] at hkind
    exact absurd hkind (by decide)
  | token =>
    obtain ⟨t, rest, rfl, rfl, -⟩ := List.map_eq_cons_iff.1 hspaced
    obtain ⟨c, more, hbegin, hc⟩ := (hplain t List.mem_cons_self).exists_begin
    rw [hbegin] at hhead
    exact ⟨t, rest, rfl, hc.symm.trans (Option.some.inj hhead)⟩

theorem eq_closeBracket {t : Token} (ht : t.IsPlain) (h : t.text.toList = [']']) :
    t = .mark .closeBracket := by
  cases ht with
  | @name s hs =>
    have hchars : s.toList = [']'] := h
    have hkind := hs.plain ']' (hchars ▸ List.mem_cons_self)
    exact absurd hkind (by decide)
  | await | asWord => exact absurd h (by decide)
  | operator op => cases op <;> exact absurd h (by decide)
  | @sign m hm =>
    have hall : ∀ m ∈ signMarks, m.text.toList = [']'] → m = .closeBracket := by decide
    rw [hall m hm h]

/-- **The lexemes of an arrangement are its tokens**, if no neighbours touch; a text that waits for
a closing bracket begins with it. -/
theorem Arranged.lexemes_aux {g g' : Gap} {spaced : List Token} {cs : List Char}
    (h : Arranged g spaced cs g') (hfree : g' = .free) {tokens : List Token}
    (hspaced : spaced = tokens.map Token.spaced) (hplain : ∀ t ∈ tokens, t.IsPlain)
    (hapart : IsApart tokens) :
    lexemes cs = tokens.map (fun t => t.text.toList) ∧
      (g = .closing → (lexemes cs).head? = some [']']) := by
  -- As for squeezing, an extra comma goes because the bracket it waits for comes next.
  induction h generalizing tokens with
  | done g =>
    subst hfree
    rw [List.map_eq_nil_iff.1 hspaced.symm]
    exact ⟨rfl, fun hclosing => absurd hclosing (by decide)⟩
  | blank _ ih =>
    rw [lexemes_blank (by decide)]
    exact ih hfree hspaced hplain hapart
  | lineBreak _ _ ih =>
    rw [lexemes_blank (by decide)]
    exact ih hfree hspaced hplain hapart
  | @token g g' s _ cs hadmits hrest ih =>
    obtain ⟨t, rest, rfl, rfl, rfl⟩ := List.map_eq_cons_iff.1 hspaced.symm
    have hplainRest : ∀ t' ∈ rest, t'.IsPlain := fun t' ht' => hplain t' (List.mem_cons_of_mem _ ht')
    have ht := hplain t List.mem_cons_self
    obtain ⟨hnext, hapartRest⟩ := List.isChain_cons.1 hapart
    obtain ⟨hlexemes, -⟩ := ih hfree rfl hplainRest hapartRest
    have hjoin : ∀ kind, t.joinKind = some kind → cs.head?.map charKind ≠ some kind := by
      intro kind hkind hhead
      have hjoins : kind.joins = true := ht.joins hkind
      obtain ⟨t', more, rfl, hbegin⟩ := hrest.exists_head hplainRest hjoins hhead
      have ht' := hplainRest t' List.mem_cons_self
      exact ht.beginKind_ne ht' (hnext t' rfl) hkind hbegin
    have hcomma : t = .mark .comma → (lexemes cs).head? ≠ some [']'] := by
      rintro rfl hhead
      rw [hlexemes, List.head?_map, Option.map_eq_some_iff] at hhead
      obtain ⟨t', ht', htext⟩ := hhead
      have hclose := eq_closeBracket (hplainRest t' (List.mem_of_mem_head? ht')) htext
      have htouch := hnext t' ht'
      rw [hclose] at htouch
      cases htouch
    refine ⟨?_, fun hclosing => ?_⟩
    · rw [lexemes_spaced ht hjoin hcomma, hlexemes, List.map_cons]
    · have hbracket : lexemes (']' :: cs) = [']'] :: lexemes cs := lexemes_sign (by decide) (by simp)
      rw [hadmits hclosing]
      exact congrArg List.head? hbracket
  | extraComma _ ih =>
    obtain ⟨hlexemes, hhead⟩ := ih hfree hspaced hplain hapart
    rw [lexemes_comma (hhead rfl)]
    exact ⟨hlexemes, fun hclosing => absurd hclosing (by decide)⟩

theorem Arranged.lexemes_eq {tokens : List Token} {cs : List Char}
    (h : Arranged .free (tokens.map Token.spaced) cs .free) (hplain : ∀ t ∈ tokens, t.IsPlain)
    (hapart : IsApart tokens) : lexemes cs = tokens.map fun t => t.text.toList :=
  (h.lexemes_aux rfl rfl hplain hapart).1

/-! ## Tokens of a text -/

/-- The tokens of operator trees, names apart. -/
def fixedTokens : List Token :=
  .lead .await :: .mark .asWord ::
    ([.assign, .strictEq, .greater, .or, .add].map fun op => .mark (.operator op)) ++
      signMarks.map .mark

/-- The token that a lexeme is; every other one is a name. -/
def tokenOf (lexeme : List Char) : Token :=
  (fixedTokens.find? fun t => t.text.toList = lexeme).getD (.name (String.ofList lexeme))

/-- The tokens of a text. -/
def readTokens (s : String) : List Token := (lexemes s.toList).map tokenOf

theorem Token.IsPlain.tokenOf_text {t : Token} (ht : t.IsPlain) : tokenOf t.text.toList = t := by
  cases ht with
  | @name s hs =>
    have hfixed : ∀ t ∈ fixedTokens, t.text = "await" ∨ t.text = "as" ∨
        t.text.toList.any (charKind · ≠ .word) = true := by decide
    have hnone : fixedTokens.find? (fun t => t.text.toList = s.toList) = none := by
      rw [List.find?_eq_none]
      intro t ht heq
      have htext : t.text = s := String.toList_inj.1 (of_decide_eq_true heq)
      rcases hfixed t ht with hawait | has | hother
      · exact hs.ne_await (htext ▸ hawait)
      · exact hs.ne_as (htext ▸ has)
      · obtain ⟨c, hc, hkind⟩ := List.any_eq_true.1 hother
        exact of_decide_eq_true hkind (hs.plain c (htext ▸ hc))
    have hname : (Token.name s).text = s := rfl
    unfold tokenOf
    rw [hname, hnone, Option.getD_none, String.ofList_toList]
  | await | asWord => decide
  | operator op => cases op <;> decide
  | @sign m hm =>
    have hall : ∀ m ∈ signMarks, tokenOf (Token.mark m).text.toList = .mark m := by decide
    exact hall m hm

/-- **A text has no other tokens** than those that are arranged in it. -/
theorem readTokens_eq {tokens : List Token} {s : String}
    (h : HasTokens (tokens.map Token.spaced) s) (hplain : ∀ t ∈ tokens, t.IsPlain)
    (hapart : IsApart tokens) : readTokens s = tokens := by
  unfold readTokens
  rw [Arranged.lexemes_eq h hplain hapart, List.map_map]
  refine (List.map_congr_left fun t ht => ?_).trans (List.map_id tokens)
  exact (hplain t ht).tokenOf_text

end TypedBindings.TypeScript
