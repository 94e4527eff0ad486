import TypedBindings.Proofs.TypeScript.Arrangement

/-!
# Layouts of one tree

Whatever the indentation and the column at which an expression is written, its text has the tokens
of the tree, so two layouts differ in blanks, line breaks and extra commas only.

* `Layout.Printed`, `Layout.Prints`: the tokens that a layout writes, wherever it is written.
* `Ty.hasTokens_text`: the text of a type.
* `Expr.prints_layout`, `Stmt.printed_layout`: the layouts of expressions and statements, by one
  case for each of their forms.
* `layout_keeps_tokens`: any two layouts of one tree.
-/

namespace TypedBindings.TypeScript

open Layout

/-! ## Layouts and tokens -/

/-- Whatever is written already, a layout adds tokens in their order, from one gap to another. -/
def Layout.Printed (g : Gap) (tokens : List Token) (g' : Gap) (a : Layout) : Prop :=
  ∀ p : Printer, ∃ t, (a.write p).written = t.reverse ++ p.written ∧ Arranged g tokens t g'

/-- A layout writes tokens wherever no closing bracket has to follow. -/
def Layout.Prints (tokens : List Token) (a : Layout) : Prop :=
  ∀ g, g ≠ .closing → a.Printed g tokens .free

/-- A layout writes tokens where anything may stand. -/
def Layout.Shows (tokens : List Token) (a : Layout) : Prop := a.Printed .free tokens .free

section Kit

variable {g m g' : Gap} {xs ys : List Token} {a b : Layout} {s : String}

/-- The empty layout has no tokens and leaves the place as it found it. -/
theorem Layout.printed_nothing (g : Gap) : nothing.Printed g [] g := fun _ => ⟨[], rfl, .done g⟩

/-- One layout behind another one. -/
theorem Layout.Printed.append (h : a.Printed g xs m) (h' : b.Printed m ys g') :
    (a ++ b).Printed g (xs ++ ys) g' := by
  intro p
  obtain ⟨t, hfirst, ht⟩ := h p
  obtain ⟨u, hsecond, hu⟩ := h' (a.write p)
  refine ⟨t ++ u, ?_, ht.append hu⟩
  show (b.write (a.write p)).written = _
  rw [hsecond, hfirst, List.reverse_append, List.append_assoc]

/-- What a line starts with is its indentation. -/
theorem Printer.exists_startLine (p : Printer) :
    ∃ n, p.startLine.written = List.replicate n ' ' ++ p.written := by
  unfold Printer.startLine
  split
  · exact ⟨_, rfl⟩
  · exact ⟨0, rfl⟩

/-- A text has its tokens wherever it is put; indentation is blanks in front of it. -/
theorem Layout.printed_put (hs : Arranged g xs s.toList g') : (put s).Printed g xs g' := by
  intro p
  show ∃ t, (p.write s).written = t.reverse ++ p.written ∧ Arranged g xs t g'
  unfold Printer.write
  split
  · next hempty =>
    have hnil : s.toList = [] := by simpa using hempty
    exact ⟨[], rfl, hnil ▸ hs⟩
  · obtain ⟨n, hn⟩ := p.exists_startLine
    refine ⟨List.replicate n ' ' ++ s.toList, ?_, (arranged_blanks g n).append hs⟩
    unfold Printer.push
    rw [List.reverseAux_eq, hn, List.reverse_append, List.reverse_replicate, List.append_assoc]

/-- A line may end anywhere but behind a word that leads. -/
theorem Layout.printed_newline (hg : g ≠ .held) : newline.Printed g [] g := fun _ =>
  ⟨['\n'], rfl, .lineBreak hg (.done g)⟩

theorem Layout.Printed.of_eq (h : a.Printed g xs g') (hxy : xs = ys) : a.Printed g ys g' := hxy ▸ h

/-- Another piece of text behind a layout. -/
theorem Layout.Printed.put (h : a.Printed g xs m) (hs : Arranged m ys s.toList g') :
    (a ++ Layout.put s).Printed g (xs ++ ys) g' := h.append (printed_put hs)

/-- A line ends behind a layout that does not end with a word that leads. -/
theorem Layout.Printed.newline (h : a.Printed g xs m) (hm : m ≠ .held) :
    (a ++ Layout.newline).Printed g xs m :=
  (h.append (printed_newline hm)).of_eq (List.append_nil xs)

/-- A text with the end of its line behind it. -/
theorem Layout.printed_line (hs : Arranged g xs s.toList g') (hg' : g' ≠ .held) :
    (line s).Printed g xs g' := (printed_put hs).newline hg'

theorem Layout.Printed.line (h : a.Printed g xs m) (hs : Arranged m ys s.toList g')
    (hg' : g' ≠ .held) : (a ++ Layout.line s).Printed g (xs ++ ys) g' :=
  h.append (printed_line hs hg')

/-- The level makes no difference to the tokens. -/
theorem Layout.Printed.indented (h : a.Printed g xs m) (hb : b.Printed m ys g') :
    (a ++ Layout.indented b).Printed g (xs ++ ys) g' :=
  h.append fun p => hb { p with indent := p.indent + 1 }

/-- A layout that may stand in most places, behind another one. -/
theorem Layout.Printed.run (h : a.Printed g xs m) (hb : b.Prints ys) (hm : m ≠ .closing) :
    (a ++ b).Printed g (xs ++ ys) .free := h.append (hb m hm)

/-- A layout that is chosen because a text fits has the tokens of both choices. -/
theorem Layout.printed_fitting {wanted : Bool} {head : String} {tail : Nat} {rest tall : Layout}
    (hhead : Arranged g xs head.toList m) (hrest : rest.Printed m ys g')
    (htall : tall.Printed g (xs ++ ys) g') :
    (fitting wanted head tail rest tall).Printed g (xs ++ ys) g' := by
  intro p
  unfold write
  split
  · exact (printed_put hhead).append hrest p
  · exact htall p

/-- A flat form and a broken one with the same tokens: the choice between them is free. -/
theorem Layout.printed_flatOr {flat : String} {tail : Nat} (hflat : Arranged g xs flat.toList g')
    (htall : a.Printed g xs g') : (flatOr flat tail a).Printed g xs g' := by
  have htokens : xs ++ [] = xs := List.append_nil xs
  exact (printed_fitting hflat (printed_nothing g') (htokens.symm ▸ htall)).of_eq htokens

/-- The text that a layout gives on its own, as a width is measured. -/
theorem Layout.Printed.arranged_text (h : a.Printed g xs g') : Arranged g xs a.text.toList g' := by
  obtain ⟨t, hwritten, ht⟩ := h {}
  have htext : a.text.toList = t := by
    unfold Layout.text Printer.text
    rw [String.toList_ofList, hwritten, List.append_nil, List.reverse_reverse]
  rwa [htext]

/-- What may stand in most places may start a line. -/
theorem Layout.Prints.shows (h : a.Prints xs) : a.Shows xs := h .free nofun

theorem Layout.Shows.hasTokens_text (h : a.Shows xs) : HasTokens xs a.text :=
  Printed.arranged_text h

/-! ## Single tokens and their blanks -/

/-- A mark may stand wherever no extra comma is in front. -/
theorem arranged_mark (m : Mark) (hg : g ≠ .closing) :
    Arranged g [.mark m] m.text.toList .free := .sole (Gap.admits_of_ne hg)

/-- A closing bracket may stand behind an extra comma too. -/
theorem arranged_closeBracket (g : Gap) : Arranged g [.mark .closeBracket] "]".toList .free :=
  .sole g.admits_closeBracket

theorem arranged_name (name : String) (hg : g ≠ .closing) :
    Arranged g [.name name] name.toList .free := .sole (t := .name name) (Gap.admits_of_ne hg)

theorem arranged_literal (s : String) (hg : g ≠ .closing) :
    Arranged g [.literal s] (Text.quote s).toList .free :=
  .sole (t := .literal s) (Gap.admits_of_ne hg)

/-- An integer is written as a call with its digits quoted. -/
theorem arranged_bigInt (digits : String) (hg : g ≠ .closing) :
    Arranged g [.bigInt digits] ("BigInt(" ++ Text.quote digits ++ ")").toList .free :=
  .sole (t := .bigInt digits) (Gap.admits_of_ne hg)

theorem arranged_number (n : Int) (hg : g ≠ .closing) :
    Arranged g [.number n] (toString n).toList .free :=
  .sole (t := .number n) (Gap.admits_of_ne hg)

/-- A word that leads, with the blank behind it. -/
theorem arranged_lead (word : LeadWord) (hg : g ≠ .closing) :
    Arranged g [.lead word] (word.text ++ " ").toList .held :=
  .append_text (m := .held) (.sole (t := .lead word) (Gap.admits_of_ne hg)) (.blank (.done .held))

theorem hasTokens_mark (m : Mark) : HasTokens [.mark m] m.text := arranged_mark m nofun

theorem hasTokens_name (name : String) : HasTokens [.name name] name := arranged_name name nofun

theorem hasTokens_literal (s : String) : HasTokens [.literal s] (Text.quote s) :=
  arranged_literal s nofun

theorem hasTokens_blank : HasTokens [] " " := .blank (.done .free)

/-- Texts are put one behind the other, and their tokens with them. -/
theorem HasTokens.append {t : String} (h : HasTokens xs s) (h' : HasTokens ys t) :
    HasTokens (xs ++ ys) (s ++ t) := .append_text h h'

theorem HasTokens.of_eq (h : HasTokens xs s) (hxy : xs = ys) : HasTokens ys s := hxy ▸ h

/-- A mark with a blank behind it. -/
theorem hasTokens_mark_blank (m : Mark) : HasTokens [.mark m] (m.text ++ " ") :=
  (hasTokens_mark m).append hasTokens_blank

/-- A mark between blanks. -/
theorem hasTokens_blank_mark_blank (m : Mark) : HasTokens [.mark m] (" " ++ m.text ++ " ") :=
  (hasTokens_blank.append (hasTokens_mark m)).append hasTokens_blank

end Kit

/-! ## Types and parameters -/

section

variable {parts : List (List Token)} {texts : List String} {s : String}

/-- Texts with commas between them. -/
theorem hasTokens_listed (h : List.Forall₂ HasTokens parts texts) :
    HasTokens (listed parts) (", ".intercalate texts) :=
  hasTokens_separated (hasTokens_mark_blank .comma) h

/-- A text between two marks. -/
theorem hasTokens_enclosed {tokens : List Token} (first last : Mark) (h : HasTokens tokens s) :
    HasTokens (enclosed first last tokens) (first.text ++ s ++ last.text) :=
  ((hasTokens_mark first).append h).append (hasTokens_mark last)

theorem hasTokens_optionalMark (isOptional : Bool) :
    HasTokens (questionTokens isOptional) (Ty.optionalMark isOptional) := by
  cases isOptional with
  | true => exact hasTokens_mark .question
  | false => exact .done .free

end

mutual

/-- **The text of a type has its tokens.** -/
theorem Ty.hasTokens_text (type : Ty) : HasTokens type.tokens type.text := by
  match type with
  | .named name => exact hasTokens_name name
  | .generic name args =>
    have hargs := hasTokens_enclosed .openAngle .closeAngle
      (hasTokens_listed (Ty.forall₂_texts args))
    have htext : (Ty.generic name args).text =
        name ++ ("<" ++ ", ".intercalate (Ty.texts args) ++ ">") := by
      rw [Ty.text, String.append_assoc, String.append_assoc, String.append_assoc]
    rw [htext]
    exact (hasTokens_name name).append hargs
  | .tuple elements =>
    exact hasTokens_enclosed .openBracket .closeBracket
      (hasTokens_listed (Ty.forall₂_texts elements))
  | .object [] => exact (hasTokens_mark .openBrace).append (hasTokens_mark .closeBrace)
  | .object (m :: ms) =>
    have hsep : HasTokens [.mark .semicolon] "; " := hasTokens_mark_blank .semicolon
    have hmembers := hasTokens_separated hsep (Ty.forall₂_memberTexts (m :: ms))
    exact (((hasTokens_mark_blank .openBrace).append hmembers).append
      (hasTokens_blank.append (hasTokens_mark .closeBrace)))
  | .union variants =>
    have hsep : HasTokens [.mark .bar] " | " := hasTokens_blank_mark_blank .bar
    exact hasTokens_separated hsep (Ty.forall₂_texts variants)
  | .literal s => exact hasTokens_literal s
  | .array element =>
    have helement := element.hasTokens_text
    have hbrackets : HasTokens (enclosed .openBracket .closeBracket []) "[]" :=
      (hasTokens_mark .openBracket).append (hasTokens_mark .closeBracket)
    rw [Ty.text, Ty.tokens]
    split
    · have hclose : HasTokens (.mark .closeParen :: enclosed .openBracket .closeBracket []) ")[]" :=
        (hasTokens_mark .closeParen).append hbrackets
      exact (((hasTokens_mark .openParen).append helement).append hclose).of_eq (by simp [enclosed])
    · exact helement.append hbrackets
  | .raw s => exact hasTokens_name s

/-- The types of a union, of a tuple or of generic arguments, one by one. -/
theorem Ty.forall₂_texts (types : List Ty) :
    List.Forall₂ HasTokens (Ty.tokenLists types) (Ty.texts types) := by
  match types with
  | [] => exact .nil
  | type :: rest => exact .cons type.hasTokens_text (Ty.forall₂_texts rest)

/-- The members of an object type, one by one. -/
theorem Ty.forall₂_memberTexts (members : List (Member Ty)) :
    List.Forall₂ HasTokens (Ty.memberTokens members) (Ty.memberTexts members) := by
  match members with
  | [] => exact .nil
  | ⟨name, isOptional, type⟩ :: rest =>
    have hmember := (((hasTokens_name name).append (hasTokens_optionalMark isOptional)).append
      (hasTokens_mark_blank .colon)).append type.hasTokens_text
    exact .cons (hmember.of_eq (by simp)) (Ty.forall₂_memberTexts rest)

end

theorem hasTokens_typeArgsText (types : List Ty) :
    HasTokens (angled (Ty.tokenLists types)) (typeArgsText types) := by
  cases types with
  | nil => exact .done .free
  | cons type rest =>
    exact hasTokens_enclosed .openAngle .closeAngle
      (hasTokens_listed (Ty.forall₂_texts (type :: rest)))

theorem hasTokens_annotated (type : Option Ty) :
    HasTokens (annotationTokens type) <| annotation type := by
  cases type with
  | none => exact .done .free
  | some type => exact (hasTokens_mark_blank .colon).append type.hasTokens_text

/-- A parameter's name, its question mark and its type. -/
theorem Param.hasTokens_text (param : Param) : HasTokens param.tokens param.text :=
  ((hasTokens_name param.name).append (hasTokens_optionalMark param.isOptional)).append
    (hasTokens_annotated param.type)

theorem forall₂_paramTexts (params : List Param) :
    List.Forall₂ HasTokens (params.map Param.tokens) (params.map Param.text) := by
  induction params with
  | nil => exact .nil
  | cons param rest ih => exact .cons param.hasTokens_text ih

theorem hasTokens_exportMark (isExported : Bool) :
    HasTokens (if isExported then [.mark .exportWord] else []) (exportMark isExported) := by
  cases isExported with
  | true => exact hasTokens_mark_blank .exportWord
  | false => exact .done .free

/-- A declaration up to its equals sign. -/
theorem Declarator.hasTokens_text (d : Declarator) : HasTokens d.tokens d.text := by
  have hkind : HasTokens [.mark (if d.isLet then .letWord else .constWord)]
      (if d.isLet then "let " else "const ") := by
    cases d.isLet with
    | true => exact hasTokens_mark_blank .letWord
    | false => exact hasTokens_mark_blank .constWord
  exact (((((hasTokens_exportMark d.isExported).append hkind).append
    (hasTokens_name d.name)).append (hasTokens_annotated d.type)).append
      (hasTokens_blank_mark_blank (.operator .assign))).of_eq (by simp [Declarator.tokens])

/-! ## Lists of layouts -/

/-- A comma follows every part that another part follows. -/
theorem listed_cons_cons (part next : List Token) (rest : List (List Token)) :
    listed (part :: next :: rest) = part ++ [.mark .comma] ++ listed (next :: rest) :=
  List.intercalate_cons_cons

theorem listed_singleton (part : List Token) : listed [part] = part := by
  unfold listed separated
  exact List.intercalate_singleton

/-- A list is its parts but the last, with a comma behind each, and the last one. -/
theorem listed_eq (parts : List (List Token)) :
    listed parts =
      parts.dropLast.flatMap (· ++ [.mark .comma]) ++ parts.getLast?.getD [] := by
  induction parts with
  | nil => rfl
  | cons part rest ih =>
    cases rest with
    | nil => rw [listed_singleton]; rfl
    | cons next rest =>
      rw [listed_cons_cons, ih]
      simp

section

variable {parts : List (List Token)} {as : List Layout} {tokens : List Token}

/-- Layouts that show their tokens, measured by their texts. -/
theorem forall₂_texts (h : List.Forall₂ Shows parts as) :
    List.Forall₂ HasTokens parts (as.map text) := by
  induction h with
  | nil => exact .nil
  | cons ha _ ih => exact .cons ha.hasTokens_text ih

/-- Between two lines stands a comma. -/
theorem shows_stacked (h : List.Forall₂ Shows parts as) : (stacked as).Shows (listed parts) := by
  induction h with
  | nil => exact printed_nothing .free
  | cons ha hrest ih =>
    cases hrest with
    | nil => exact (ha.newline nofun).of_eq (listed_singleton _).symm
    | cons =>
      exact ((ha.line (hasTokens_mark .comma) nofun).append ih).of_eq
        (listed_cons_cons _ _ _).symm

/-- A comma stands behind the last line too. It is no token, so a bracket has to follow it. -/
theorem printed_lines (h : List.Forall₂ Shows parts as) :
    (lines "," as).Printed .free (listed parts) (if as.isEmpty then .free else .closing) := by
  induction h with
  | nil => exact printed_nothing .free
  | cons ha hrest ih =>
    cases hrest with
    | nil =>
      have hcomma : Arranged .free [] ",".toList .closing := .extraComma (.done .closing)
      have hend : (lines "," []).Printed .closing [] .closing := printed_nothing .closing
      exact ((ha.line hcomma nofun).append hend).of_eq (by simp [listed_singleton])
    | cons =>
      exact ((ha.line (hasTokens_mark .comma) nofun).append ih).of_eq
        (listed_cons_cons _ _ _).symm

/-- A list on the line or on lines of its own. -/
theorem prints_arrayLayout (h : List.Forall₂ Shows parts as) :
    Prints (enclosed .openBracket .closeBracket (listed parts)) (arrayLayout as) := by
  intro g hg
  have hopen : Arranged g [.mark .openBracket] "[".toList .free := arranged_mark .openBracket hg
  have hflat := hasTokens_listed (forall₂_texts h)
  refine printed_flatOr ((hopen.append_text hflat).append_text (hasTokens_mark .closeBracket)) ?_
  exact ((printed_line hopen nofun).indented (printed_lines h)).put (arranged_closeBracket _)

/-- The arguments in front of one that hugs its parentheses, each with its comma. -/
theorem hasTokens_huggedText {texts : List String} (h : List.Forall₂ HasTokens parts texts) :
    HasTokens (.mark .openParen :: parts.flatMap (· ++ [.mark .comma])) (huggedText texts) := by
  have hall : ∀ front t, HasTokens front t →
      HasTokens (front ++ parts.flatMap (· ++ [.mark .comma]))
        (texts.foldl (fun t s => t ++ s ++ ", ") t) := by
    induction h with
    | nil => exact fun front t ht => ht.of_eq (List.append_nil front).symm
    | cons hfirst _ ih =>
      intro front t ht
      exact (ih _ _ ((ht.append hfirst).append (hasTokens_mark_blank .comma))).of_eq (by simp)
  exact hall _ _ (hasTokens_mark .openParen)

/-- The argument that hugs is the last one, if there is one. -/
theorem shows_getLast (h : List.Forall₂ Shows parts as) :
    (as.getLast?.getD nothing).Shows (parts.getLast?.getD []) := by
  induction h with
  | nil => exact printed_nothing .free
  | cons ha hrest ih =>
    cases hrest with
    | nil => exact ha
    | cons => exact ih

/-- Arguments in each of their three layouts. -/
theorem shows_argsLayout (h : List.Forall₂ Shows parts as) (hugs : Bool) :
    (argsLayout as hugs).Shows (argsTokens parts) := by
  have htexts := forall₂_texts h
  have hfront : List.Forall₂ HasTokens parts.dropLast (as.map text).dropLast := by
    rw [List.dropLast_eq_take, List.dropLast_eq_take, htexts.length_eq]
    exact List.forall₂_take _ htexts
  have hclose := hasTokens_mark .closeParen
  have hhugs : (argsTokens parts) = (.mark .openParen :: parts.dropLast.flatMap (· ++ [.mark .comma]))
      ++ (parts.getLast?.getD [] ++ [.mark .closeParen]) := by
    simp [argsTokens, enclosed, listed_eq parts]
  refine printed_flatOr
    (hasTokens_enclosed .openParen .closeParen (hasTokens_listed htexts)) ?_
  rw [hhugs]
  refine printed_fitting (hasTokens_huggedText hfront) ((shows_getLast h).put hclose) ?_
  rw [← hhugs]
  exact ((printed_line (hasTokens_mark .openParen) nofun).indented (shows_stacked h)).put hclose

/-- Parentheses are printed exactly where the tokens have them. -/
theorem prints_parenthesized (wanted : Bool) {a : Layout} (ha : Prints tokens a) :
    Prints (grouped wanted tokens) (parenthesized wanted a) := by
  intro g hg
  cases wanted with
  | true =>
    exact ((printed_put (arranged_mark .openParen hg)).run ha nofun).put
      (hasTokens_mark .closeParen)
  | false => exact ha g hg

end

/-- Parameters on one line, or each on a line of its own with a comma behind the last. -/
theorem prints_paramsLayout (params : List Param) (tail : Nat) :
    Prints (paramsTokens params) (paramsLayout params tail) := by
  intro g hg
  have hopen : Arranged g [.mark .openParen] "(".toList .free := arranged_mark .openParen hg
  have hlines : List.Forall₂ Shows (params.map Param.tokens)
      (params.map fun param => put param.text) := by
    induction params with
    | nil => exact .nil
    | cons param rest ih => exact .cons (printed_put param.hasTokens_text) ih
  have hflat := (hopen.append_text (hasTokens_listed (forall₂_paramTexts params))).append_text
    (hasTokens_mark .closeParen)
  have htall := ((printed_line hopen nofun).indented (shows_stacked hlines)).put
    (hasTokens_mark .closeParen)
  unfold paramsLayout
  dsimp only
  split
  · exact printed_put hflat
  · exact (printed_fitting hflat (printed_nothing _)
      (htall.of_eq (List.append_nil _).symm)).of_eq (List.append_nil _)

/-- The head of a function up to its arrow. -/
theorem prints_headLayout (head : ArrowHead) : Prints head.tokens head.layout := by
  intro g hg
  unfold ArrowHead.layout ArrowHead.tokens
  dsimp only
  split
  · exact ((((printed_put (arranged_lead .async hg)).run (prints_paramsLayout _ _) nofun).put
      (hasTokens_annotated head.returns)).put (hasTokens_blank_mark_blank .arrow)).of_eq (by simp)
  · exact ((((printed_nothing g).append (prints_paramsLayout _ _ g hg)).put
      (hasTokens_annotated head.returns)).put (hasTokens_blank_mark_blank .arrow)).of_eq (by simp)

/-! ## Forms of expressions -/

-- Where a layout is chosen, both are written by the tokens; a text on the line has them because it
-- is the layout on an empty page.

/-- The tokens of a list of expressions, each expression's own. -/
theorem tokenLists_eq_map (exprs : List Expr) : Expr.tokenLists exprs = exprs.map Expr.tokens := by
  induction exprs with
  | nil => rfl
  | cons e rest ih => rw [Expr.tokenLists, ih, List.map_cons]

/-- The layouts of a list's expressions show the tokens of the expressions. -/
theorem forall₂_layouts {tokens : Expr → List Token} {exprs : List Expr}
    (h : ∀ e ∈ exprs, Prints (tokens e) (e.layout false)) :
    List.Forall₂ Shows (exprs.map tokens) (Expr.layouts exprs) := by
  induction exprs with
  | nil => exact .nil
  | cons e rest ih =>
    obtain ⟨he, hrest⟩ := List.forall_mem_cons.1 h
    exact .cons he.shows (ih hrest)

section

variable {xs ys zs : List Token} {left right test yes no : Expr}

/-- A member of what is written by some tokens. -/
theorem prints_member (h : Prints xs (left.layout false)) (name : String) (broken : Bool) :
    Prints (grouped left.bindsLoosely xs ++ [.mark .dot, .name name])
      ((Expr.member left name).layout broken) := by
  intro g hg
  rw [Expr.layout]
  exact (prints_parenthesized _ h g hg).put ((hasTokens_mark .dot).append (hasTokens_name name))

/-- An access by a key, whose left side may need parentheses. -/
theorem prints_index (h : Prints xs (left.layout false)) (hkey : Prints ys (right.layout false))
    (broken : Bool) :
    Prints (grouped left.bindsLoosely xs ++ enclosed .openBracket .closeBracket ys)
      ((Expr.index left right).layout broken) := by
  intro g hg
  rw [Expr.layout]
  exact ((((prints_parenthesized _ h g hg).put (hasTokens_mark .openBracket)).run hkey
    nofun).put (hasTokens_mark .closeBracket)).of_eq (by simp [enclosed])

/-- A call, whose arguments may be laid out in any way. -/
theorem prints_call {typeArgs : List Ty} {args : List Expr} {tokens : Expr → List Token}
    (h : Prints xs (left.layout false)) (hargs : ∀ e ∈ args, Prints (tokens e) (e.layout false))
    (broken : Bool) :
    Prints (grouped left.bindsLoosely xs ++ angled (Ty.tokenLists typeArgs) ++
        argsTokens (args.map tokens))
      ((Expr.call left typeArgs args).layout broken) := by
  intro g hg
  rw [Expr.layout]
  exact ((prints_parenthesized _ h g hg).put (hasTokens_typeArgsText typeArgs)).append
    (shows_argsLayout (forall₂_layouts hargs) _)

/-- A conditional is one text or stands on lines of its own. -/
theorem prints_cond (htest : Prints xs (test.layout false)) (hyes : Prints ys (yes.layout false))
    (hno : Prints zs (no.layout false)) (broken : Bool) :
    Prints (xs ++ .mark .question :: ys ++ .mark .colon :: zs)
      ((Expr.cond test yes no).layout broken) := by
  intro g hg
  have hline := ((((htest g hg).put (hasTokens_blank_mark_blank .question)).run hyes nofun).put
    (hasTokens_blank_mark_blank .colon)).run hno nofun
  have hchoices := (((printed_put (hasTokens_mark_blank .question)).run hyes nofun).newline
    nofun).put (hasTokens_mark_blank .colon) |>.run hno nofun
  have htall := ((htest g hg).newline nofun).indented hchoices
  rw [Expr.layout]
  exact printed_flatOr (hline.of_eq (by simp)).arranged_text (htall.of_eq (by simp))

/-- An operator stands between its operands; only `+` looks at the chain that it is part of. -/
theorem prints_binary (hleft : ∀ broken, Prints xs (left.layout broken))
    (hright : Prints ys (right.layout false)) (op : Operator) (broken : Bool) :
    Prints (xs ++ .mark (.operator op) :: ys) ((Expr.binary left op right).layout broken) := by
  intro g hg
  have hline := ((printed_put (hasTokens_blank.append (hasTokens_mark (.operator .add)))).newline
    nofun).run hright nofun
  have hchain : (left.layout true ++ indented (line " +" ++ right.layout false)).Printed g
      (xs ++ .mark (.operator .add) :: ys) .free :=
    ((hleft true g hg).indented hline).of_eq (by simp)
  by_cases hadd : op = .add
  · subst hadd
    cases broken with
    | true => rw [Expr.layout]; exact hchain
    | false =>
      have hflat := ((hleft false g hg).arranged_text.append_text
        (hasTokens_blank_mark_blank (.operator .add))).append_text hright.shows.hasTokens_text
      have htokens : xs ++ [.mark (.operator .add)] ++ ys = xs ++ .mark (.operator .add) :: ys := by
        simp
      rw [Expr.layout]
      exact printed_flatOr (htokens ▸ hflat) hchain
  · rw [Expr.layout]
    · exact (((hleft false g hg).put (hasTokens_blank_mark_blank (.operator op))).run hright
        nofun).of_eq (by simp)
    · exact fun _ => hadd
    · exact fun _ => hadd

end

/-! ## Expressions and statements -/

mutual

/-- **An expression is written by its tokens**, whatever the printer and the chain of `+` that it is
part of. -/
theorem Expr.prints_layout (e : Expr) (broken : Bool) : Prints e.tokens (e.layout broken) := by
  intro g hg
  -- The gap in front is the first token's; whatever follows stands where anything may.
  match e with
  | .ident path => rw [Expr.layout]; exact printed_put (arranged_name path hg)
  | .str s => rw [Expr.layout]; exact printed_put (arranged_literal s hg)
  | .bigInt digits => rw [Expr.layout]; exact printed_put (arranged_bigInt digits hg)
  | .bool b => rw [Expr.layout]; exact printed_put (arranged_mark (.bool b) hg)
  | .num n => rw [Expr.layout]; exact printed_put (arranged_number n hg)
  | .undefined => rw [Expr.layout]; exact printed_put (arranged_mark .undefined hg)
  | .array elements =>
    rw [Expr.layout, Expr.tokens, tokenLists_eq_map]
    exact prints_arrayLayout (forall₂_layouts (Expr.prints_all elements)) g hg
  | .object [] =>
    rw [Expr.layout]
    exact printed_put (.append_text (arranged_mark .openBrace hg) (hasTokens_mark .closeBrace))
  | .object (entry :: rest) =>
    rw [Expr.layout]
    exact ((printed_line (arranged_mark .openBrace hg) nofun).indented
      (Expr.shows_entryLayouts (entry :: rest))).put (hasTokens_mark .closeBrace)
  | .call callee typeArgs args =>
    rw [Expr.tokens, tokenLists_eq_map]
    exact prints_call (callee.prints_layout false) (Expr.prints_all args) broken g hg
  | .construct className typeArgs args =>
    have hclass := ((arranged_lead .new hg).append_text (arranged_name className nofun)).append_text
      (hasTokens_typeArgsText typeArgs)
    rw [Expr.layout]
    exact ((printed_put hclass).append (shows_argsLayout
      (forall₂_layouts (Expr.prints_all args)) _)).of_eq (by simp [Expr.tokens, tokenLists_eq_map])
  | .member target name => exact prints_member (target.prints_layout false) name broken g hg
  | .index target key =>
    exact prints_index (target.prints_layout false) (key.prints_layout false) broken g hg
  | .arrow head body =>
    rw [Expr.layout]
    exact (prints_headLayout head g hg).run
      (prints_parenthesized _ (body.prints_layout false)) nofun
  | .arrowBlock head body =>
    have hblock := ((printed_line (hasTokens_mark .openBrace) nofun).indented
      (Stmt.shows_layouts body)).put (hasTokens_mark .closeBrace)
    rw [Expr.layout]
    exact ((prints_headLayout head g hg).append hblock).of_eq (by simp [Expr.tokens, enclosed])
  | .await value =>
    rw [Expr.layout]
    exact (printed_put (arranged_lead .await hg)).run (value.prints_layout false) nofun
  | .cast value type =>
    rw [Expr.layout]
    exact (value.prints_layout false g hg).put
      ((hasTokens_blank_mark_blank .asWord).append type.hasTokens_text)
  | .cond test yes no =>
    exact prints_cond (test.prints_layout false) (yes.prints_layout false) (no.prints_layout false)
      broken g hg
  | .binary left op right =>
    exact prints_binary left.prints_layout (right.prints_layout false) op broken g hg
  | .paren inner =>
    rw [Expr.layout]
    exact ((printed_put (arranged_mark .openParen hg)).run (inner.prints_layout false)
      nofun).put (hasTokens_mark .closeParen)

/-- Every expression of a list prints its own tokens. -/
theorem Expr.prints_all (exprs : List Expr) :
    ∀ e ∈ exprs, Prints e.tokens (e.layout false) := by
  match exprs with
  | [] => exact nofun
  | e :: rest =>
    exact List.forall_mem_cons.2 ⟨e.prints_layout false, Expr.prints_all rest⟩

/-- Every entry of an object has a comma behind it, the last one too. -/
theorem Expr.shows_entryLayouts (entries : List (Entry Expr)) :
    (lines "," (Expr.entryLayouts entries)).Shows (Expr.entryTokens entries) := by
  match entries with
  | [] => exact printed_nothing .free
  | .field key value :: rest =>
    have hkey : HasTokens [.name key, .mark .colon] (key ++ ": ") :=
      (hasTokens_name key).append (hasTokens_mark_blank .colon)
    exact ((((printed_put hkey).run (value.prints_layout false) nofun).line
      (hasTokens_mark .comma) nofun).append (Expr.shows_entryLayouts rest)).of_eq
        (by simp [Expr.entryTokens])
  | .spread value :: rest =>
    exact ((((printed_put (hasTokens_mark .spread)).run (value.prints_layout false) nofun).line
      (hasTokens_mark .comma) nofun).append (Expr.shows_entryLayouts rest)).of_eq
        (by simp [Expr.entryTokens])

/-- A statement with its semicolon, or with its block. -/
theorem Stmt.shows_layout (s : Stmt) : s.layout.Shows s.tokens := by
  match s with
  | .ret value =>
    have hret : Arranged .free [.lead .ret] "return ".toList .held := arranged_lead .ret nofun
    exact ((printed_put hret).run (value.prints_layout false) nofun).line
      (hasTokens_mark .semicolon) nofun
  | .expr value =>
    exact (value.prints_layout false).shows.line (hasTokens_mark .semicolon) nofun
  | .declare d value =>
    exact ((printed_put d.hasTokens_text).run (value.prints_layout false) nofun).line
      (hasTokens_mark .semicolon) nofun
  | .branch test yes no =>
    have hif : HasTokens [.mark .ifWord, .mark .openParen] "if (" :=
      (hasTokens_mark_blank .ifWord).append (hasTokens_mark .openParen)
    have hthen : HasTokens [.mark .closeParen, .mark .openBrace] ") \x7b" :=
      (hasTokens_mark_blank .closeParen).append (hasTokens_mark .openBrace)
    have helse : HasTokens [.mark .closeBrace, .mark .elseWord, .mark .openBrace]
        "\x7d else \x7b" :=
      ((hasTokens_mark_blank .closeBrace).append (hasTokens_mark_blank .elseWord)).append
        (hasTokens_mark .openBrace)
    have hyes := (((printed_put hif).run (test.prints_layout false) nofun).line hthen
      nofun).indented (Stmt.shows_layouts yes)
    have hno := (printed_line helse nofun).indented (Stmt.shows_layouts no)
    rw [Stmt.layout, Stmt.tokens]
    split
    · exact ((hyes.append (printed_nothing .free)).line (hasTokens_mark .closeBrace) nofun).of_eq
        (by simp [enclosed])
    · exact ((hyes.append hno).line (hasTokens_mark .closeBrace) nofun).of_eq (by simp [enclosed])
  | .throw value =>
    have hthrow : Arranged .free [.lead .throw] "throw ".toList .held := arranged_lead .throw nofun
    exact ((printed_put hthrow).run (value.prints_layout false) nofun).line
      (hasTokens_mark .semicolon) nofun

/-- The statements of a block, each from the start of a line. -/
theorem Stmt.shows_layouts (body : List Stmt) :
    (joined (Stmt.layouts body)).Shows (Stmt.tokensOfBlock body) := by
  match body with
  | [] => exact printed_nothing .free
  | s :: rest => exact s.shows_layout.append (Stmt.shows_layouts rest)

end

/-! ## Any two layouts -/

/-- What an expression adds to the text of a printer. -/
theorem Expr.exists_hasTokens_write (e : Expr) (p : Printer) :
    ∃ s, (e.write false p).text = p.text ++ s ∧ HasTokens e.tokens s := by
  obtain ⟨t, hwritten, ht⟩ := (e.prints_layout false).shows p
  refine ⟨String.ofList t, ?_, ?_⟩
  · show ((e.layout false).write p).text = _
    unfold Printer.text
    rw [hwritten, List.reverse_append, List.reverse_reverse, String.ofList_append]
  · unfold HasTokens
    rwa [String.toList_ofList]

/-- The names of an expression are the name tokens of its text. -/
theorem Expr.mem_names {e : Expr} {name : String} :
    name ∈ e.names ↔ Token.name name ∈ e.tokens := by
  unfold Expr.names
  rw [List.mem_filterMap]
  constructor
  · rintro ⟨t, ht, hname⟩
    cases t with
    | name s => cases hname; exact ht
    | _ => cases hname
  · intro h
    exact ⟨_, h, rfl⟩

/-- **Layout never changes the program.** Written by any two printers, an expression gives two texts
that are one once blanks and line breaks outside string literals and commas in front of a closing
bracket are taken out; and both have the tokens of the tree in their order, with no line break
between a word that leads and the token behind it. (A name with a quote in it would look like a
literal.) -/
theorem layout_keeps_tokens {e : Expr} (he : ∀ name ∈ e.names, '"' ∉ name.toList)
    (p q : Printer) :
    ∃ s t : String, (e.write false p).text = p.text ++ s ∧ (e.write false q).text = q.text ++ t ∧
      squeeze s.toList = squeeze t.toList ∧ HasTokens e.tokens s ∧ HasTokens e.tokens t := by
  have hquote : ∀ s, Token.name s ∈ e.tokens → '"' ∉ s.toList := fun s hs =>
    he s (Expr.mem_names.2 hs)
  obtain ⟨s, hs, hsTokens⟩ := e.exists_hasTokens_write p
  obtain ⟨t, ht, htTokens⟩ := e.exists_hasTokens_write q
  refine ⟨s, t, hs, ht, ?_, hsTokens, htTokens⟩
  calc squeeze s.toList
      = squeeze (bareText e.tokens) := hsTokens.squeeze_eq hquote
    _ = squeeze t.toList := (htTokens.squeeze_eq hquote).symm

/-- A list in a call, with a string that looks like the end of a list. -/
def listInCall : Expr :=
  .callNamed "run" [.array [.await (.ident "first.value"), .str ", ]"], .arrowBlock
    { params := [{ name := "x", type := some (.named "Address") }] } [.ret (.ident "x")]]

/-- The call on an empty page and far to the right. -/
theorem layout_keeps_tokens_list :
    (∀ name ∈ listInCall.names, '"' ∉ name.toList) ∧
      ∃ s t : String, (listInCall.write false {}).text = ({} : Printer).text ++ s ∧
        (listInCall.write false { indent := 39 }).text = ({ indent := 39 } : Printer).text ++ t ∧
        squeeze s.toList = squeeze t.toList ∧ HasTokens listInCall.tokens s ∧
        HasTokens listInCall.tokens t := by
  have hnames : ∀ name ∈ listInCall.names, '"' ∉ name.toList := by decide
  exact ⟨hnames, layout_keeps_tokens hnames {} { indent := 39 }⟩

end TypedBindings.TypeScript
