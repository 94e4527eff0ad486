import TypedBindings.Proofs.TypeScript.Steps

/-!
# Layouts take sound steps

Whatever is written already, the layout of a tree takes sound steps, if the names of the tree have no
line break in them. If the names are not empty either, every line that an expression or a statement
ends has something on it.

* `writes_argsLayout`, `writes_condLayout`: what is laid out in one of several ways.
* `Expr.writes_layout`, `Stmt.isSound_layout`: expressions and statements, by one case for each
  form.
-/

namespace TypedBindings.TypeScript

open Layout

section

variable {spaced : Prop} {a b c : Layout} {as : List Layout}

/-! ## Parameters and arguments -/

/-- Parameters that go on lines of their own stand between brackets, so no line is empty. -/
theorem writes_paramsLayout {params : List Param} (h : NeatNames spaced (paramsTokens params))
    (tail : Nat) (p : Printer) : (paramsLayout params tail).Writes spaced p := by
  have hparams : ∀ param ∈ params, NeatNames spaced param.tokens := by
    simpa [paramsTokens] using h
  have hflat : IsNeat spaced ("(" ++ ", ".intercalate (params.map Param.text) ++ ")") :=
    ⟨oneLine_paramTexts hparams, fun _ => by simp⟩
  have hlines : ∀ a ∈ params.map (fun param => put param.text), ∀ p, a.Writes spaced p := by
    rintro a ha
    obtain ⟨param, hparam, rfl⟩ := List.mem_map.1 ha
    exact writes_put (Param.isNeat_text (hparams param hparam))
  unfold paramsLayout
  dsimp only
  split
  · exact writes_put hflat p
  · refine writes_fitting (fun _ => ⟨hflat.1, isSound_nothing _, (writes_put hflat p).column_ne⟩) ?_
    exact writes_block (.fixed (by decide)) (isSound_stacked hlines) (.fixed (by decide)) p

/-- The head of a function, with or without `async` and a result. -/
theorem ArrowHead.writes_layout {head : ArrowHead} (h : NeatNames spaced head.tokens)
    (p : Printer) : head.layout.Writes spaced p := by
  obtain ⟨-, hparams, hreturns⟩ := by simpa [ArrowHead.tokens] using h
  have hasync : (if head.isAsync then put "async " else nothing).IsSound spaced p := by
    split
    · exact isSound_put (by decide) p
    · exact isSound_nothing p
  exact ((hasync.appendWrites (writes_paramsLayout hparams _ _)).putMore
    (oneLine_annotationText hreturns)).putMore (by decide)

/-- Parentheses around a layout, where they are wanted. -/
theorem writes_parenthesized (wanted : Bool) (ha : ∀ p, a.Writes spaced p) (p : Printer) :
    (parenthesized wanted a).Writes spaced p := by
  cases wanted with
  | true => exact ((isSound_put (by decide) p).appendWrites (ha _)).putMore (by decide)
  | false => exact ha p

/-- An array is measured by its text before it is broken. -/
theorem writes_arrayLayout (h : ∀ a ∈ as, ∀ p, a.Writes spaced p) (p : Printer) :
    (arrayLayout as).Writes spaced p :=
  writes_flatOr (fun _ => by simp) (writes_block (.fixed (by decide))
    (isSound_lines (.fixed (by decide)) fun a ha p => (h a ha p).sound) (.fixed (by decide)) p)

/-- The arguments in front of the last one, which stay on one line together. -/
theorem isNeat_huggedText {front : List String} (h : ∀ s ∈ front, OneLine s) :
    IsNeat spaced (huggedText front) := by
  have hall : ∀ t, IsNeat spaced t → IsNeat spaced (front.foldl (fun t s => t ++ s ++ ", ") t) := by
    induction front with
    | nil => exact fun _ ht => ht
    | cons s rest ih =>
      obtain ⟨hs, hrest⟩ := List.forall_mem_cons.1 h
      exact fun t ht => ih hrest _ ((ht.append hs).append (by decide))
  exact hall "(" (.fixed (by decide))

/-- Arguments in each of their three layouts. -/
theorem writes_argsLayout (h : ∀ a ∈ as, ∀ p, a.Writes spaced p) (hugs : Bool) (p : Printer) :
    (argsLayout as hugs).Writes spaced p := by
  have hlast : ∀ p, (as.getLast?.getD nothing).IsSound spaced p := by
    cases hlast : as.getLast? with
    | none => exact isSound_nothing
    | some a => exact fun p => (h a (List.mem_of_getLast? hlast) p).sound
  refine writes_flatOr (fun _ => by simp) (writes_fitting (fun hwanted => ?_) ?_)
  · obtain ⟨-, hfront⟩ := Bool.and_eq_true_iff.1 hwanted
    have hline : ∀ s ∈ (as.map text).dropLast, OneLine s := fun s hs =>
      isOneLine_iff.1 (List.all_eq_true.1 hfront s hs)
    have hhead : IsNeat spaced (huggedText (as.map text).dropLast) := isNeat_huggedText hline
    exact ⟨hhead.1, (hlast _).putNeat (.fixed (by decide))⟩
  · exact writes_block (.fixed (by decide)) (isSound_stacked h) (.fixed (by decide)) p

/-- A conditional on one line. -/
theorem writes_condLine (ha : ∀ p, a.Writes spaced p) (hb : ∀ p, b.Writes spaced p)
    (hc : ∀ p, c.Writes spaced p) (p : Printer) : (condLine a b c).Writes spaced p :=
  (((((ha p).putMore (by decide)).sound.appendWrites (hb _)).putMore (by decide)).sound.appendWrites
    (hc _))

/-- A conditional that does not fit breaks in front of both branches. -/
theorem writes_condLayout (ha : ∀ p, a.Writes spaced p) (hb : ∀ p, b.Writes spaced p)
    (hc : ∀ p, c.Writes spaced p) (p : Printer) : (condLayout a b c).Writes spaced p := by
  -- the text was measured on an empty page, where its own steps say that it is not empty
  refine writes_flatOr (writes_condLine ha hb hc {}).text_ne ?_
  refine (ha p).endLine.indentedWrites fun r => ?_
  exact ((((isSound_put (by decide) r).appendWrites (hb _)).endLine).put (by decide)).appendWrites
    (hc _)

/-! ## Expressions and statements -/

mutual

/-- **The layout of an expression takes sound steps**, to the middle of a line. -/
theorem Expr.writes_layout (e : Expr) (broken : Bool) (h : NeatNames spaced e.tokens)
    (p : Printer) : (e.layout broken).Writes spaced p := by
  match e with
  | .ident path =>
    rw [Expr.layout]
    exact writes_put (h path (List.mem_singleton_self _)) p
  | .str s =>
    rw [Expr.layout]
    exact writes_put (.fixed ⟨oneLine_quote s, quote_ne s⟩) p
  | .bigInt digits =>
    rw [Expr.layout]
    exact writes_put ((IsNeat.append (.fixed (by decide)) (oneLine_quote digits)).append
      (by decide)) p
  | .bool b =>
    rw [Expr.layout]
    exact writes_put (.fixed (by cases b <;> decide)) p
  | .num n =>
    rw [Expr.layout]
    exact writes_put (isNeat_toString n) p
  | .undefined =>
    rw [Expr.layout]
    exact writes_put (.fixed (by decide)) p
  | .array elements =>
    have helements := by simpa [Expr.tokens] using h
    rw [Expr.layout]
    exact writes_arrayLayout (Expr.writes_layouts elements helements) p
  | .object [] =>
    rw [Expr.layout]
    exact writes_put (.fixed (by decide)) p
  | .object (entry :: rest) =>
    have hentries : NeatNames spaced (Expr.entryTokens (entry :: rest)) := by
      simpa only [Expr.tokens, neatNames_enclosed] using h
    rw [Expr.layout]
    exact writes_block (.fixed (by decide)) (isSound_lines (.fixed (by decide))
      (Expr.isSound_entryLayouts (entry :: rest) hentries)) (.fixed (by decide)) p
  | .call callee typeArgs args =>
    obtain ⟨⟨hcallee, htypes⟩, hargs⟩ := by
      simpa only [Expr.tokens, argsTokens, neatNames_append, neatNames_grouped, neatNames_enclosed,
        neatNames_listed] using h
    rw [Expr.layout]
    exact ((writes_parenthesized _ (callee.writes_layout false hcallee) p).putMore
      (oneLine_typeArgsText htypes)).sound.appendWrites
        (writes_argsLayout (Expr.writes_layouts args hargs) _ _)
  | .construct className typeArgs args =>
    obtain ⟨hname, htypes, hargs⟩ := by
      simpa [Expr.tokens, argsTokens, -neatNames_angled] using h
    have hhead : IsNeat spaced ("new " ++ className ++ typeArgsText typeArgs) :=
      (IsNeat.append (.fixed (by decide)) hname.1).append (oneLine_typeArgsText htypes)
    rw [Expr.layout]
    exact (isSound_put hhead.1 p).appendWrites
      (writes_argsLayout (Expr.writes_layouts args hargs) _ _)
  | .member target name =>
    obtain ⟨htarget, hname⟩ := by simpa [Expr.tokens] using h
    rw [Expr.layout]
    exact (writes_parenthesized _ (target.writes_layout false htarget) p).putMore
      ((by decide : OneLine ".").append hname.1)
  | .index target key =>
    obtain ⟨htarget, hkey⟩ := by simpa [Expr.tokens] using h
    rw [Expr.layout]
    exact (((writes_parenthesized _ (target.writes_layout false htarget) p).putMore
      (by decide)).sound.appendWrites (key.writes_layout false hkey _)).putMore (by decide)
  | .arrow head body =>
    obtain ⟨hhead, hbody⟩ := by simpa [Expr.tokens] using h
    rw [Expr.layout]
    exact (ArrowHead.writes_layout hhead p).sound.appendWrites
      (writes_parenthesized _ (body.writes_layout false hbody) _)
  | .arrowBlock head body =>
    obtain ⟨hhead, hbody⟩ := by simpa [Expr.tokens] using h
    rw [Expr.layout]
    exact (ArrowHead.writes_layout hhead p).sound.appendWrites (writes_block (.fixed (by decide))
      (isSound_joined (Stmt.isSound_layouts body hbody)) (.fixed (by decide)) _)
  | .await value =>
    have hvalue := by simpa [Expr.tokens] using h
    rw [Expr.layout]
    exact (isSound_put (by decide) p).appendWrites (value.writes_layout false hvalue _)
  | .cast value type =>
    obtain ⟨hvalue, htype⟩ := by simpa [Expr.tokens] using h
    rw [Expr.layout]
    exact (value.writes_layout false hvalue p).putMore
      ((by decide : OneLine " as ").append (type.oneLine_text htype))
  | .cond test yes no =>
    obtain ⟨htest, hyes, hno⟩ := by simpa [Expr.tokens] using h
    rw [Expr.layout]
    exact writes_condLayout (test.writes_layout false htest) (yes.writes_layout false hyes)
      (no.writes_layout false hno) p
  | .binary left op right =>
    obtain ⟨hleft, hright⟩ := by simpa [Expr.tokens] using h
    have hchain : (left.layout true ++ indented (line " +" ++ right.layout false)).Writes spaced p :=
      (left.writes_layout true hleft p).sound.indentedWrites fun r =>
        (isSound_line (.fixed (by decide)) r).appendWrites (right.writes_layout false hright _)
    by_cases hadd : op = .add
    -- a chain that is broken already does not ask again whether it fits
    · subst hadd
      cases broken with
      | true =>
        rw [Expr.layout]
        exact hchain
      | false =>
        rw [Expr.layout]
        exact writes_flatOr (fun _ => by simp) hchain
    · have hop : OneLine (" " ++ op.text ++ " ") := by cases op <;> decide
      rw [Expr.layout]
      · exact ((left.writes_layout false hleft p).putMore hop).sound.appendWrites
          (right.writes_layout false hright _)
      all_goals exact fun _ => hadd
  | .paren inner =>
    have hinner := by simpa [Expr.tokens] using h
    rw [Expr.layout]
    exact ((isSound_put (by decide) p).appendWrites (inner.writes_layout false hinner _)).putMore
      (by decide)

theorem Expr.writes_layouts (exprs : List Expr)
    (h : ∀ part ∈ Expr.tokenLists exprs, NeatNames spaced part) :
    ∀ a ∈ Expr.layouts exprs, ∀ p, a.Writes spaced p := by
  match exprs with
  | [] => exact nofun
  | e :: rest =>
    obtain ⟨he, hrest⟩ := List.forall_mem_cons.1 h
    exact List.forall_mem_cons.2 ⟨e.writes_layout false he, Expr.writes_layouts rest hrest⟩

/-- The entries of an object stand on lines of their own. -/
theorem Expr.isSound_entryLayouts (entries : List (Entry Expr))
    (h : NeatNames spaced (Expr.entryTokens entries)) :
    ∀ a ∈ Expr.entryLayouts entries, ∀ p, a.IsSound spaced p := by
  match entries with
  | [] => exact nofun
  | .field key value :: rest =>
    obtain ⟨hkey, hvalue, hrest⟩ := by simpa [Expr.entryTokens] using h
    refine List.forall_mem_cons.2 ⟨fun p => ?_, Expr.isSound_entryLayouts rest hrest⟩
    exact (isSound_put (hkey.1.append (by decide)) p).append (value.writes_layout false hvalue _).sound
  | .spread value :: rest =>
    obtain ⟨hvalue, hrest⟩ := by simpa [Expr.entryTokens] using h
    refine List.forall_mem_cons.2 ⟨fun p => ?_, Expr.isSound_entryLayouts rest hrest⟩
    exact (isSound_put (by decide) p).append (value.writes_layout false hvalue _).sound

/-- **The layout of a statement takes sound steps.** -/
theorem Stmt.isSound_layout (s : Stmt) (h : NeatNames spaced s.tokens) (p : Printer) :
    s.layout.IsSound spaced p := by
  match s with
  | .ret value =>
    have hvalue := by simpa [Stmt.tokens] using h
    rw [Stmt.layout]
    exact ((isSound_put (by decide) p).appendWrites
      (value.writes_layout false hvalue _)).sound.line (.fixed (by decide))
  | .expr value =>
    have hvalue := by simpa [Stmt.tokens] using h
    rw [Stmt.layout]
    exact (value.writes_layout false hvalue p).sound.line (.fixed (by decide))
  | .declare d value =>
    obtain ⟨hd, hvalue⟩ := by simpa [Stmt.tokens] using h
    rw [Stmt.layout]
    exact ((isSound_put (Declarator.isNeat_text hd).1 p).appendWrites
      (value.writes_layout false hvalue _)).sound.line (.fixed (by decide))
  | .branch test yes no =>
    obtain ⟨-, ⟨htest, hyes⟩, hno⟩ := by
      simpa only [Stmt.tokens, List.cons_append, neatNames_cons, neatNames_append,
        neatNames_enclosed] using h
    have helse : ∀ q, (if no.isEmpty then nothing
        else line "\x7d else \x7b" ++ indented (joined (Stmt.layouts no))).IsSound spaced q := by
      intro q
      split
      · exact isSound_nothing q
      · next hempty =>
        rw [if_neg hempty] at hno
        exact (isSound_line (.fixed (by decide)) q).indented
          (isSound_joined (Stmt.isSound_layouts no (by simpa using hno)))
    rw [Stmt.layout]
    exact (((((isSound_put (by decide) p).appendWrites
      (test.writes_layout false htest _)).sound.line (.fixed (by decide))).indented
        (isSound_joined (Stmt.isSound_layouts yes hyes))).append (helse _)).line (.fixed (by decide))
  | .throw value =>
    have hvalue := by simpa [Stmt.tokens] using h
    rw [Stmt.layout]
    exact ((isSound_put (by decide) p).appendWrites
      (value.writes_layout false hvalue _)).sound.line (.fixed (by decide))

theorem Stmt.isSound_layouts (body : List Stmt) (h : NeatNames spaced (Stmt.tokensOfBlock body)) :
    ∀ a ∈ Stmt.layouts body, ∀ p, a.IsSound spaced p := by
  match body with
  | [] => exact nofun
  | s :: rest =>
    obtain ⟨hs, hrest⟩ := by simpa [Stmt.tokensOfBlock] using h
    exact List.forall_mem_cons.2 ⟨s.isSound_layout hs, Stmt.isSound_layouts rest hrest⟩

end

end

end TypedBindings.TypeScript
