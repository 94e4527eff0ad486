import TypedBindings.Proofs.TypeScript.Layouts
import TypedBindings.Proofs.TypeScript.Lexemes
import TypedBindings.Proofs.TypeScript.Precedence

/-!
# What a text tells of its operands

The text of an operator tree has its pieces in it, whatever the layout. It has no parentheses but
those around targets, so trees that group the operands of their operators differently can have one
text; of those, one at most is grouped as the language reads it.

* `Placed.isPlain`, `Placed.isApart`: the tokens of an operator tree can be read from a text.
* `Expr.IsOperatorTree.prints_spaced`: it is written by its tokens, with a blank where two would
  touch.
* `text_tells_pieces`: what operator trees with one text have in common.
-/

namespace TypedBindings.TypeScript

open Layout

/-! ## Tokens of pieces -/

section

variable {isGiven : Bool} {ps : List Piece} {r : List Token}

/-- A token of pieces in their places is plain, names apart. -/
theorem Placed.isPlain_or_name (h : Placed isGiven ps) :
    ∀ t ∈ Piece.tokensOf ps, t.IsPlain ∨ ∃ s, t = .name s := by
  have hsign : ∀ {m : Mark}, m ∈ signMarks → (Token.mark m).IsPlain ∨ ∃ s, Token.mark m = .name s :=
    fun hm => Or.inl (.sign hm)
  induction h with
  | name s _ ih =>
    rw [tokensOf_name]
    exact List.forall_mem_cons.2 ⟨Or.inr ⟨s, rfl⟩, ih⟩
  | group _ _ ihinner ih =>
    rw [tokensOf_group, List.forall_mem_cons, List.forall_mem_append, List.forall_mem_cons]
    exact ⟨hsign (by decide), ihinner, hsign (by decide), ih⟩
  | await _ ih =>
    rw [tokensOf_await]
    exact List.forall_mem_cons.2 ⟨Or.inl .await, ih⟩
  | done => exact fun _ ht => absurd ht List.not_mem_nil
  | member n _ ih =>
    rw [tokensOf_member, List.forall_mem_cons, List.forall_mem_cons]
    exact ⟨hsign (by decide), Or.inr ⟨n, rfl⟩, ih⟩
  | index _ _ ihkey ih =>
    rw [tokensOf_index, List.forall_mem_cons, List.forall_mem_append, List.forall_mem_cons]
    exact ⟨hsign (by decide), ihkey, hsign (by decide), ih⟩
  | call _ _ ihargs ih =>
    rw [tokensOf_call, List.forall_mem_cons, List.forall_mem_append, List.forall_mem_cons]
    refine ⟨hsign (by decide), fun t ht => ?_, hsign (by decide), ih⟩
    rcases Text.mem_intercalate ht with ht | ⟨part, hpart, ht⟩
    · rw [List.mem_singleton.1 ht]
      exact hsign (by decide)
    · obtain ⟨a, ha, rfl⟩ := List.mem_map.1 hpart
      exact ihargs a ha t ht
  | cast n _ ih =>
    rw [tokensOf_cast, List.forall_mem_cons, List.forall_mem_cons]
    exact ⟨Or.inl .asWord, Or.inr ⟨n, rfl⟩, ih⟩
  | operator op _ ih =>
    rw [tokensOf_operator]
    exact List.forall_mem_cons.2 ⟨Or.inl (.operator op), ih⟩
  | choice _ _ ihyes ih =>
    rw [tokensOf_choice, List.forall_mem_cons, List.forall_mem_append, List.forall_mem_cons]
    exact ⟨hsign (by decide), ihyes, hsign (by decide), ih⟩

theorem touches_mark {m : Mark} (hop : ∀ op, m ≠ .operator op) (hcomma : m ≠ .comma) (t : Token) :
    (Token.mark m).touches t = false := by
  unfold Token.touches
  split <;> simp_all

/-- Where an operand is given, a mark comes next. -/
theorem Placed.head_given (h : Placed true ps) (hr : Ends r) :
    ∀ t ∈ (Piece.tokensOf ps ++ r).head?, ∃ m, t = .mark m := by
  intro t ht
  cases h with
  | done =>
    cases r with
    | nil => cases ht
    | cons first rest =>
      cases ht
      cases t with
      | mark m => exact ⟨m, rfl⟩
      | _ => cases hr
  | member | index | call | cast | operator | choice =>
    simp at ht
    exact ⟨_, ht.symm⟩

/-- Where an operand is missing, no mark comes next but the one that opens a group. -/
theorem Placed.head_missing (h : Placed false ps) :
    ∀ t ∈ (Piece.tokensOf ps ++ r).head?, ∀ m, t = .mark m → m = .openParen := by
  rintro t ht m rfl
  cases h with
  | name | await => simp at ht
  | group =>
    simp at ht
    exact ht.symm

theorem isApart_cons {t : Token} (h : ∀ t' ∈ r.head?, t.touches t' = false) (hr : IsApart r) :
    IsApart (t :: r) := List.isChain_cons.2 ⟨h, hr⟩

theorem isApart_mark {m : Mark} (hop : ∀ op, m ≠ .operator op) (hcomma : m ≠ .comma)
    (hr : IsApart r) : IsApart (.mark m :: r) :=
  isApart_cons (fun t _ => touches_mark hop hcomma t) hr

/-- A name in front of a mark. -/
theorem isApart_name {s : String} (h : ∀ t ∈ r.head?, ∃ m, t = .mark m) (hr : IsApart r) :
    IsApart (.name s :: r) := by
  refine isApart_cons (fun t ht => ?_) hr
  obtain ⟨m, rfl⟩ := h t ht
  rfl

/-- An operator or a comma in front of an operand. -/
theorem isApart_operand {m : Mark} (h : Placed false ps) (hr : IsApart (Piece.tokensOf ps ++ r)) :
    IsApart (.mark m :: (Piece.tokensOf ps ++ r)) := by
  refine isApart_cons (fun t ht => ?_) hr
  have hmark := h.head_missing t ht
  cases t with
  | mark m' =>
    rw [hmark m' rfl]
    cases m <;> rfl
  | _ => cases m <;> rfl

/-- Arguments with a comma in front of each. -/
theorem isApart_trail {args : List (List Piece)} (hargs : ∀ a ∈ args, Placed false a)
    (h : ∀ a ∈ args, ∀ {s : List Token}, Ends s → IsApart s → IsApart (Piece.tokensOf a ++ s))
    (hr : Ends r) (hapart : IsApart r) :
    Ends (Text.trail [.mark .comma] (args.map Piece.tokensOf) ++ r) ∧
      IsApart (Text.trail [.mark .comma] (args.map Piece.tokensOf) ++ r) := by
  induction args with
  | nil => exact ⟨hr, hapart⟩
  | cons a rest ih =>
    obtain ⟨hends, hrest⟩ := ih (fun b hb => hargs b (List.mem_cons_of_mem _ hb))
      (fun b hb => h b (List.mem_cons_of_mem _ hb))
    rw [List.map_cons, Text.trail_cons, List.append_assoc, List.append_assoc]
    have hfirst := h a List.mem_cons_self hends hrest
    exact ⟨ends_cons rfl, isApart_operand (hargs a List.mem_cons_self) hfirst⟩

/-- **No two neighbours among the tokens of pieces in their places touch.** -/
theorem Placed.isApart_append (h : Placed isGiven ps) (hr : Ends r) (hapart : IsApart r) :
    IsApart (Piece.tokensOf ps ++ r) := by
  induction h generalizing r with
  | name s hps ih =>
    rw [tokensOf_name]
    exact isApart_name (hps.head_given hr) (ih hr hapart)
  | group _ _ ihinner ih =>
    have hclose := isApart_mark (m := .closeParen) nofun nofun (ih hr hapart)
    rw [tokensOf_group, List.cons_append, List.append_assoc]
    exact isApart_mark nofun nofun (ihinner (ends_cons rfl) hclose)
  | await _ ih =>
    rw [tokensOf_await]
    exact isApart_cons (fun _ _ => rfl) (ih hr hapart)
  | done => exact hapart
  | member n hps ih =>
    rw [tokensOf_member]
    exact isApart_mark nofun nofun (isApart_name (hps.head_given hr) (ih hr hapart))
  | index _ _ ihkey ih =>
    have hclose := isApart_mark (m := .closeBracket) nofun nofun (ih hr hapart)
    rw [tokensOf_index, List.cons_append, List.append_assoc]
    exact isApart_mark nofun nofun (ihkey (ends_cons rfl) hclose)
  | @call args ps hargs _ ihargs ih =>
    have hclose := isApart_mark (m := .closeParen) nofun nofun (ih hr hapart)
    rw [tokensOf_call, List.cons_append, List.append_assoc]
    refine isApart_mark nofun nofun ?_
    -- The arguments behind the first one are added from the last on, each in front of its comma.
    cases args with
    | nil => exact hclose
    | cons a rest =>
      obtain ⟨hends, hrest⟩ := isApart_trail (fun b hb => hargs b (List.mem_cons_of_mem _ hb))
        (fun b hb => ihargs b (List.mem_cons_of_mem _ hb)) (ends_cons rfl) hclose
      rw [List.map_cons, Text.intercalate_cons, List.append_assoc]
      exact ihargs a List.mem_cons_self hends hrest
  | cast n hps ih =>
    rw [tokensOf_cast]
    exact isApart_mark nofun nofun (isApart_name (hps.head_given hr) (ih hr hapart))
  | operator op hps ih =>
    rw [tokensOf_operator]
    exact isApart_operand hps (ih hr hapart)
  | choice _ _ ihyes ih =>
    have hclose := isApart_mark (m := .colon) nofun nofun (ih hr hapart)
    rw [tokensOf_choice, List.cons_append, List.append_assoc]
    exact isApart_mark nofun nofun (ihyes (ends_cons rfl) hclose)

end

/-! ## Operator trees -/

namespace Expr

/-- **The tokens of an operator tree can be read from any text in which they are arranged.** -/
theorem IsOperatorTree.isPlain {e : Expr} (he : e.IsOperatorTree)
    (hwords : ∀ name ∈ e.names, IsWord name) : ∀ t ∈ e.tokens, t.IsPlain := by
  intro t ht
  rw [← e.tokens_flat] at ht
  rcases he.placed.isPlain_or_name t ht with hplain | ⟨s, rfl⟩
  · exact hplain
  · rw [e.tokens_flat] at ht
    exact .name (hwords s (mem_names.2 ht))

theorem IsOperatorTree.isApart {e : Expr} (he : e.IsOperatorTree) : IsApart e.tokens := by
  have happend := he.placed.isApart_append ends_nil List.isChain_nil
  rwa [List.append_nil, e.tokens_flat] at happend

end Expr

/-! ## Layouts of operator trees -/

/-- The tokens of an expression, with the blanks without which they would touch. -/
def Expr.spacedTokens (e : Expr) : List Token := e.tokens.map Token.spaced

theorem map_spaced_grouped (wanted : Bool) (tokens : List Token) :
    (grouped wanted tokens).map Token.spaced = grouped wanted (tokens.map Token.spaced) := by
  cases wanted with
  | true => simp [grouped, enclosed, Token.spaced]
  | false => rfl

theorem map_spaced_listed (parts : List (List Token)) :
    (listed parts).map Token.spaced = listed (parts.map (List.map Token.spaced)) := by
  induction parts with
  | nil => rfl
  | cons part rest ih =>
    cases rest with
    | nil => rw [listed_singleton, List.map_singleton, listed_singleton]
    | cons next rest =>
      rw [listed_cons_cons, List.map_append, List.map_append, ih]
      exact (listed_cons_cons ..).symm

theorem map_spaced_args (args : List Expr) :
    (argsTokens (Expr.tokenLists args)).map Token.spaced =
      argsTokens (args.map Expr.spacedTokens) := by
  have hargs : (args.map Expr.tokens).map (List.map Token.spaced) = args.map Expr.spacedTokens :=
    List.map_map ..
  unfold argsTokens
  rw [← hargs, ← map_spaced_listed, tokenLists_eq_map]
  simp [enclosed, Token.spaced]

/-- **An operator tree is written by its tokens**, with blanks where two would touch. -/
theorem Expr.IsOperatorTree.prints_spaced {e : Expr} (he : e.IsOperatorTree) (broken : Bool) :
    Prints e.spacedTokens (e.layout broken) := by
  induction he generalizing broken with
  | ident name =>
    intro g hg
    rw [Expr.layout]
    exact printed_put (arranged_name name hg)
  | @member target name _ ih =>
    have htokens : (Expr.member target name).spacedTokens =
        grouped target.bindsLoosely target.spacedTokens ++ [.mark .dot, .name name] := by
      simp [Expr.spacedTokens, Expr.tokens, map_spaced_grouped, Token.spaced]
    rw [htokens]
    exact prints_member (ih false) name broken
  | @index target key _ _ ih ihkey =>
    have htokens : (Expr.index target key).spacedTokens =
        grouped target.bindsLoosely target.spacedTokens ++
          enclosed .openBracket .closeBracket key.spacedTokens := by
      simp [Expr.spacedTokens, Expr.tokens, map_spaced_grouped, enclosed, Token.spaced]
    rw [htokens]
    exact prints_index (ih false) (ihkey false) broken
  | @call callee args _ _ ih ihargs =>
    have htokens : (Expr.call callee [] args).spacedTokens =
        grouped callee.bindsLoosely callee.spacedTokens ++ angled (Ty.tokenLists []) ++
          argsTokens (args.map Expr.spacedTokens) := by
      unfold Expr.spacedTokens
      rw [Expr.tokens, List.map_append, List.map_append, map_spaced_grouped, map_spaced_args]
      rfl
    rw [htokens]
    exact prints_call (ih false) (fun a ha => ihargs a ha false) broken
  | @await value _ ih =>
    intro g hg
    -- The blank behind the word counts as a part of it here, so no line can end in between.
    have hword : Arranged g [.name "await "] "await ".toList .free := arranged_name "await " hg
    rw [Expr.layout]
    exact (printed_put hword).run (ih false) (by decide)
  | @cast value type _ ih =>
    intro g hg
    have htokens : (Expr.cast value (.named type)).spacedTokens =
        value.spacedTokens ++ [.name " as ", .name type] := by
      simp [Expr.spacedTokens, Expr.tokens, Ty.tokens, Token.spaced]
    rw [Expr.layout, htokens]
    exact (ih false g hg).put ((hasTokens_name " as ").append (hasTokens_name type))
  | @cond test yes no _ _ _ ihtest ihyes ihno =>
    have htokens : (Expr.cond test yes no).spacedTokens =
        test.spacedTokens ++ .mark .question :: yes.spacedTokens ++
          .mark .colon :: no.spacedTokens := by
      simp [Expr.spacedTokens, Expr.tokens, Token.spaced]
    rw [htokens]
    exact prints_cond (ihtest false) (ihyes false) (ihno false) broken
  | @binary left right op _ _ ihleft ihright =>
    have htokens : (Expr.binary left op right).spacedTokens =
        left.spacedTokens ++ .mark (.operator op) :: right.spacedTokens := by
      simp [Expr.spacedTokens, Expr.tokens, Token.spaced]
    rw [htokens]
    exact prints_binary ihleft (ihright false) op broken

/-- **The tokens of an operator tree are read from its text.** -/
theorem Expr.IsOperatorTree.readTokens_text {e : Expr} (he : e.IsOperatorTree)
    (hwords : ∀ name ∈ e.names, IsWord name) : readTokens e.text = e.tokens :=
  readTokens_eq (he.prints_spaced false).shows.hasTokens_text (he.isPlain hwords) he.isApart

theorem Expr.IsOperatorTree.flat_eq_of_text {e e' : Expr} (he : e.IsOperatorTree)
    (he' : e'.IsOperatorTree) (hwords : ∀ name ∈ e.names, IsWord name)
    (hwords' : ∀ name ∈ e'.names, IsWord name) (h : e.text = e'.text) : e.flat = e'.flat := by
  have htokens : e.tokens = e'.tokens := by
    rw [← he.readTokens_text hwords, ← he'.readTokens_text hwords', h]
  exact he.flat_eq_of_tokens he' htokens

/-- **What a text tells of operands.** Operator trees with one text have the same pieces: every
suffix has its target in front of it, and every operator, conditional, cast and `await` stands among
the same names. Nothing else is told, since trees with the same pieces differ in layout at most. But
of trees with one text, one at most is grouped as the language reads it. -/
theorem text_tells_pieces {e e' : Expr} (he : e.IsOperatorTree) (he' : e'.IsOperatorTree)
    (hwords : ∀ name ∈ e.names, IsWord name) (hwords' : ∀ name ∈ e'.names, IsWord name) :
    (e.text = e'.text → e.flat = e'.flat) ∧ (e.flat = e'.flat → e.tokens = e'.tokens) ∧
      (e.IsGrouped → e'.IsGrouped → e.text = e'.text → e = e') := by
  refine ⟨he.flat_eq_of_text he' hwords hwords', fun h => ?_, fun hgrouped hgrouped' h => ?_⟩
  · rw [← e.tokens_flat, ← e'.tokens_flat, h]
  · exact hgrouped.eq_of_flat hgrouped' (he.flat_eq_of_text he' hwords hwords' h)

/-- Letters make a word. -/
theorem isWord_of_letters {name : String} (hne : name ≠ "")
    (hletters : name.toList.all Char.isAlpha = true) (hother : name ∉ ["await", "as"]) :
    IsWord name := by
  simp only [List.mem_cons, List.not_mem_nil, or_false, not_or] at hother
  refine ⟨hne, fun c hc => ?_, hother.1, hother.2⟩
  have hletter : c.isAlpha = true := List.all_eq_true.1 hletters c hc
  have hnot : ∀ {others : List Char}, others.any Char.isAlpha = false →
      ¬ others.contains c = true := by
    intro others hothers hmem
    exact List.any_eq_false.1 hothers c (List.contains_iff_mem.1 hmem) hletter
  unfold charKind
  rw [if_neg (hnot (by decide)), if_neg (hnot (by decide)), if_neg (hnot (by decide))]

/-- The cast of a sum whose first operand waits for a call. -/
def castOfSum : Expr :=
  .cast (.binary (.await (.callMethod (.ident "a") "f" [.ident "b"])) .add (.ident "c")) (.named "T")

/-- What waits for the sum of a call and a cast, and is written as the cast of a sum. -/
def awaitOfSum : Expr :=
  .await (.binary (.callMethod (.ident "a") "f" [.ident "b"]) .add
    (.cast (.ident "c") (.named "T")))

/-- One text for two trees: it has the pieces of both, and only one is what the language reads. -/
theorem text_tells_pieces_sum :
    castOfSum.text = awaitOfSum.text ∧ castOfSum.flat = awaitOfSum.flat ∧
      castOfSum.tokens = awaitOfSum.tokens ∧ castOfSum.IsGrouped ∧ ¬ awaitOfSum.IsGrouped := by
  have hcall : (Expr.callMethod (.ident "a") "f" [.ident "b"]).IsGrouped :=
    .call (.member "f" (.ident "a")) (List.forall_mem_singleton.2 (.ident "b"))
  have hgrouped : castOfSum.IsGrouped :=
    .cast "T" (.binary (.await hcall (by decide)) (.ident "c") (by decide) (by decide)) (by decide)
  have htree : awaitOfSum.IsOperatorTree :=
    .await (.binary .add hcall.isOperatorTree (.cast "T" (.ident "c")))
  have hletters : ∀ name ∈ ["a", "f", "b", "c", "T"], IsWord name := by
    intro name hname
    have hall : ∀ name ∈ ["a", "f", "b", "c", "T"], name ≠ "" ∧
        name.toList.all Char.isAlpha = true ∧ name ∉ ["await", "as"] := by decide
    obtain ⟨hne, hletters, hother⟩ := hall name hname
    exact isWord_of_letters hne hletters hother
  have htext : castOfSum.text = awaitOfSum.text := by decide +kernel
  obtain ⟨hflat, htokens, hequal⟩ :=
    text_tells_pieces hgrouped.isOperatorTree htree hletters hletters
  refine ⟨htext, hflat htext, htokens (hflat htext), hgrouped, fun hgrouped' => ?_⟩
  have hsame := hequal hgrouped hgrouped' htext
  cases hsame

/-- A sum that leans to the right. -/
def sumToTheRight : Expr := .binary (.ident "a") .add (.binary (.ident "b") .add (.ident "c"))

/-- The same sum, leaning to the left. -/
def sumToTheLeft : Expr := .binary (.binary (.ident "a") .add (.ident "b")) .add (.ident "c")

/-- Two sums of the same names differ, and their text does not tell which one it is. -/
theorem text_hides_grouping :
    sumToTheRight.IsOperatorTree ∧ sumToTheLeft.IsOperatorTree ∧
      sumToTheRight.names = ["a", "b", "c"] ∧ sumToTheLeft.names = ["a", "b", "c"] ∧
      sumToTheRight.text = sumToTheLeft.text ∧ sumToTheRight ≠ sumToTheLeft := by
  refine ⟨?_, ?_, by decide, by decide, by decide, fun h => ?_⟩
  · exact .binary .add (.ident "a") (.binary .add (.ident "b") (.ident "c"))
  · exact .binary .add (.binary .add (.ident "a") (.ident "b")) (.ident "c")
  · cases h

end TypedBindings.TypeScript
