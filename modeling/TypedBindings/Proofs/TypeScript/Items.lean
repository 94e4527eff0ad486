import TypedBindings.Proofs.TypeScript.Soundness

/-!
# Items take sound steps

Every member of a class and every item ends with a line that is not empty, so the empty line behind
it is the end of one more line.

* `Ty.isSound_layout`: types in declarations.
* `Item.completes_layout`: items, by one case for each form.
* `SourceUnit.isSound_layout`: units.
-/

namespace TypedBindings.TypeScript

open Layout

section

variable {spaced : Prop}

/-! ## Declarations -/

mutual

/-- A type takes sound steps, be it written on one line or with a line per member. -/
theorem Ty.isSound_layout (type : Ty) (h : NeatNames spaced type.tokens) (p : Printer) :
    type.layout.IsSound spaced p := by
  match type with
  | .object [] => exact isSound_put (Ty.oneLine_text _ h) p
  | .object (m :: rest) =>
    have hmembers : ∀ part ∈ Ty.memberTokens (m :: rest), NeatNames spaced part := by
      simpa only [Ty.tokens, neatNames_enclosed, neatNames_separated] using h
    exact isSound_block (.fixed (by decide)) (isSound_lines (.fixed (by decide))
      (Ty.isSound_memberLayouts (m :: rest) hmembers)) (by decide) p
  | .named _ => exact isSound_put (Ty.oneLine_text _ h) p
  | .generic _ _ => exact isSound_put (Ty.oneLine_text _ h) p
  | .tuple _ => exact isSound_put (Ty.oneLine_text _ h) p
  | .union _ => exact isSound_put (Ty.oneLine_text _ h) p
  | .literal _ => exact isSound_put (Ty.oneLine_text _ h) p
  | .array _ => exact isSound_put (Ty.oneLine_text _ h) p
  | .raw _ => exact isSound_put (Ty.oneLine_text _ h) p

theorem Ty.isSound_memberLayouts (members : List (Member Ty))
    (h : ∀ part ∈ Ty.memberTokens members, NeatNames spaced part) :
    ∀ a ∈ Ty.memberLayouts members, ∀ p, a.IsSound spaced p := by
  match members with
  | [] => exact nofun
  | ⟨name, isOptional, type⟩ :: rest =>
    obtain ⟨hmember, hrest⟩ := List.forall_mem_cons.1 h
    obtain ⟨hname, htype⟩ := by simpa using hmember
    have hhead : OneLine (name ++ Ty.optionalMark isOptional ++ ": ") :=
      (hname.1.append (oneLine_optionalMark isOptional)).append (by decide)
    refine List.forall_mem_cons.2 ⟨fun p => ?_, Ty.isSound_memberLayouts rest hrest⟩
    exact (isSound_put hhead p).append (type.isSound_layout htype _)

end

/-- An import on one line. -/
theorem Import.completes_layout {i : Import} (h : ∀ name ∈ i.imported.bound, OneLine name)
    (p : Printer) : i.layout.Completes spaced p := by
  have hsource : OneLine (" from " ++ Text.quote i.source ++ ";") :=
    (oneLine_quote i.source).between (by decide) (by decide)
  unfold Import.layout
  dsimp only
  cases himported : i.imported with
  | default name =>
    have hname : OneLine name := h name (himported ▸ List.mem_singleton_self _)
    exact completes_line ⟨(hname.between (by decide) (by decide)).append hsource, by simp⟩ p
  | names names =>
    have hnames : ∀ name ∈ names, OneLine name := fun name hname => h name (himported ▸ hname)
    have hlines : ∀ a ∈ names.map (fun name => line (name ++ ",")), ∀ p, a.IsSound spaced p := by
      intro a ha
      obtain ⟨name, hname, rfl⟩ := List.mem_map.1 ha
      exact isSound_line (.append_left (hnames name hname) (.fixed (by decide)))
    dsimp only
    split_ifs
    · have hflat := (oneLine_intercalate (by decide : OneLine ", ") hnames).between
        (by decide : OneLine "import \x7b ") (by decide : OneLine " \x7d")
      exact completes_line ⟨hflat.append hsource, by simp⟩ p
    · exact completes_block (.fixed (by decide)) (isSound_joined hlines)
        ⟨(by decide : OneLine "\x7d").append hsource, by simp⟩ p

theorem TypeAlias.completes_layout {a : TypeAlias} (hname : OneLine a.name)
    (hgenerics : ∀ s ∈ a.generics, OneLine s) (htype : NeatNames spaced a.type.tokens)
    (p : Printer) : a.layout.Completes spaced p := by
  have hhead : OneLine
      (exportMark a.isExported ++ "type " ++ a.name ++ genericsText a.generics ++ " = ") :=
    ((((oneLine_exportMark _).append (by decide)).append hname).append
      (oneLine_genericsText hgenerics)).append (by decide)
  exact ((isSound_put hhead p).append (a.type.isSound_layout htype _)).completes (by decide)

/-- An interface, whose members stand on lines of their own. -/
theorem Interface.completes_layout {i : Interface} (hname : OneLine i.name)
    (hmembers : ∀ part ∈ Ty.memberTokens i.members, NeatNames spaced part) (p : Printer) :
    i.layout.Completes spaced p := by
  have hhead : IsNeat spaced (exportMark i.isExported ++ "interface " ++ i.name ++ " \x7b") :=
    .append_left (((oneLine_exportMark _).append (by decide)).append hname) (.fixed (by decide))
  exact completes_block hhead (isSound_lines (.fixed (by decide))
    (Ty.isSound_memberLayouts i.members hmembers)) (by decide) p

/-- Behind its head, a function ends with the brace of its body. -/
theorem completes_functionLayout {params : List Param} {returns : Option Ty} {body : List Stmt}
    (h : ∀ name ∈ functionNames params returns body, IsNeat spaced name) {head : String}
    (hhead : OneLine head) (p : Printer) :
    (put head ++ functionLayout params returns body).Completes spaced p := by
  obtain ⟨⟨hparams, hreturns⟩, hbody⟩ := by
    simpa only [functionNames, List.forall_mem_append, ← neatNames_iff] using h
  have hbraced : ∀ r, (bracedLayout body).Completes spaced r :=
    completes_block (.fixed (by decide)) (isSound_joined (Stmt.isSound_layouts body hbody))
      (by decide)
  exact (isSound_put hhead p).appendCompletes
    (((writes_paramsLayout hparams _ _).putMore
      (oneLine_annotationText hreturns)).sound.appendCompletes (hbraced _))

/-- The part of a method in front of its parameters. -/
theorem Method.oneLine_head {m : Method} (hname : OneLine m.name)
    (hgenerics : ∀ s ∈ m.generics, OneLine s) : OneLine m.head := by
  have hstatic : OneLine (if m.isStatic then "static " else "") := by split <;> decide
  have hasync : OneLine (if m.isAsync then "async " else "") := by split <;> decide
  exact ((hstatic.append hasync).append hname).append (oneLine_genericsText hgenerics)

/-- A member of a class, of each of its three forms. -/
theorem ClassMember.completes_layout {m : ClassMember}
    (h : ∀ name ∈ m.names, IsNeat spaced name) (p : Printer) : m.layout.Completes spaced p := by
  match m with
  | .constructor params body => exact completes_functionLayout h (by decide) p
  | .method m =>
    obtain ⟨hname, hrest⟩ := List.forall_mem_cons.1 h
    obtain ⟨hgenerics, hfunction⟩ := List.forall_mem_append.1 hrest
    exact completes_functionLayout hfunction
      (Method.oneLine_head hname.1 fun s hs => (hgenerics s hs).1) p
  | .property name value =>
    obtain ⟨hname, hvalue⟩ := List.forall_mem_cons.1 h
    exact ((isSound_put (hname.1.append (by decide)) p).append
      (value.writes_layout false (neatNames_iff.2 hvalue) _).sound).completes (by decide)

/-- A class, whose members are set apart. -/
theorem ClassDecl.completes_layout {c : ClassDecl} (hname : OneLine c.name)
    (hparent : ∀ type ∈ c.parent, NeatNames spaced type.tokens)
    (hmembers : ∀ name ∈ c.members.flatMap ClassMember.names, IsNeat spaced name) (p : Printer) :
    c.layout.Completes spaced p := by
  have hlayouts : ∀ a ∈ c.members.map ClassMember.layout, ∀ p, a.Completes spaced p := by
    intro a ha
    obtain ⟨m, hm, rfl⟩ := List.mem_map.1 ha
    exact ClassMember.completes_layout fun name hmem =>
      hmembers name (List.mem_flatMap.2 ⟨m, hm, hmem⟩)
  have hclass : ∀ {parent : String}, OneLine parent →
      (block (exportMark c.isExported ++ "class " ++ c.name ++ parent ++ " \x7b")
        (setApart (c.members.map ClassMember.layout)) "\x7d" ++ newline).Completes spaced p := by
    intro parent hparent
    have hhead := (((oneLine_exportMark c.isExported).append
      (by decide : OneLine "class ")).append hname).append hparent
    exact completes_block (.append_left hhead (.fixed (by decide))) (isSound_setApart hlayouts)
      (by decide) p
  unfold ClassDecl.layout
  cases hparents : c.parent with
  | none => exact hclass (by decide)
  | some type =>
    have htype := type.oneLine_text (hparent type (hparents ▸ rfl))
    exact hclass ((by decide : OneLine " extends ").append htype)

theorem FunctionDecl.completes_layout {f : FunctionDecl} (hname : OneLine f.name)
    (hgenerics : ∀ s ∈ f.generics, OneLine s)
    (h : ∀ name ∈ functionNames f.params f.returns f.body, IsNeat spaced name) (p : Printer) :
    f.layout.Completes spaced p :=
  completes_functionLayout h
    ((((oneLine_exportMark f.isExported).append (by decide)).append hname).append
      (oneLine_genericsText hgenerics)) p

/-! ## Items -/

/-- An empty line is left only behind an item, which ends with a line that is not empty. -/
theorem Item.isSound_space {previous : Option Item} {next : Item} {p : Printer}
    (hp : previous.isSome → p.EndsLine) : (Item.space previous next).IsSound spaced p := by
  unfold Item.space
  split
  · next hapart =>
    cases previous with
    | none => cases hapart
    | some i => exact isSound_blankLine (hp rfl)
  · exact isSound_nothing p

mutual

/-- **The layout of an item takes sound steps**, to the start of a line. -/
theorem Item.completes_layout (i : Item) (h : ∀ name ∈ i.names, IsNeat spaced name) (p : Printer) :
    i.layout.Completes spaced p := by
  match i with
  | .importDecl decl => exact Import.completes_layout (fun name hname => (h name hname).1) p
  | .reExport source =>
    exact completes_line ⟨(oneLine_quote source).between (by decide) (by decide), by simp⟩ p
  | .comment text =>
    have htext := h text (List.mem_singleton_self _)
    exact completes_line ⟨(by decide : OneLine "// ").append htext.1, by simp⟩ p
  | .namespaceDecl name items =>
    obtain ⟨hname, hitems⟩ := List.forall_mem_cons.1 h
    have hhead : IsNeat spaced ("export namespace " ++ name ++ " \x7b") :=
      .fixed ⟨hname.1.between (by decide) (by decide), by simp⟩
    exact completes_block hhead (fun r => Item.isSound_layoutOfAll none items hitems nofun)
      (by decide) p
  | .aliasDecl decl =>
    obtain ⟨hname, hrest⟩ := List.forall_mem_cons.1 h
    obtain ⟨hgenerics, htype⟩ := List.forall_mem_append.1 hrest
    exact TypeAlias.completes_layout hname.1 (fun s hs => (hgenerics s hs).1)
      (neatNames_iff.2 htype) p
  | .interfaceDecl decl =>
    obtain ⟨hname, hmembers⟩ := List.forall_mem_cons.1 h
    exact Interface.completes_layout hname.1 (neatNames_flatten.1 (neatNames_iff.2 hmembers)) p
  | .classDecl decl =>
    obtain ⟨hname, hrest⟩ := List.forall_mem_cons.1 h
    obtain ⟨hparent, hmembers⟩ := List.forall_mem_append.1 hrest
    refine ClassDecl.completes_layout hname.1 (fun type htype => ?_) hmembers p
    rw [Option.mem_def.1 htype] at hparent
    exact neatNames_iff.2 hparent
  | .variableDecl d value =>
    obtain ⟨hd, hvalue⟩ := List.forall_mem_append.1 h
    exact ((isSound_put (Declarator.isNeat_text (neatNames_iff.2 hd)).1 p).append
      (value.writes_layout false (neatNames_iff.2 hvalue) _).sound).completes (by decide)
  | .functionDecl decl =>
    obtain ⟨hname, hrest⟩ := List.forall_mem_cons.1 h
    obtain ⟨hgenerics, hfunction⟩ := List.forall_mem_append.1 hrest
    exact FunctionDecl.completes_layout hname.1 (fun s hs => (hgenerics s hs).1) hfunction p

/-- Items one by one, each set apart from the one in front of it where that is wanted. -/
theorem Item.isSound_layoutOfAll (previous : Option Item) (items : List Item)
    (h : ∀ name ∈ Item.namesOfAll items, IsNeat spaced name) {p : Printer}
    (hp : previous.isSome → p.EndsLine) : (Item.layoutOfAll previous items).IsSound spaced p := by
  match items with
  | [] => exact isSound_nothing p
  | i :: rest =>
    obtain ⟨hi, hrest⟩ := List.forall_mem_append.1 h
    -- an item ends with a line that is not empty, which the space in front of the next one needs
    have hitem := i.completes_layout hi ((Item.space previous i).write p)
    exact ((Item.isSound_space hp).append hitem.sound).append
      (Item.isSound_layoutOfAll (some i) rest hrest fun _ => hitem.ends)

end

/-! ## Units -/

/-- The banner, and the line that is left empty behind it. -/
theorem isSound_banner (p : Printer) : (joined (banner.map line) ++ newline).IsSound spaced p := by
  have hneat : ∀ s ∈ banner, OneLine s ∧ s ≠ "" := by decide
  have hlines : ∀ a ∈ banner.map line, ∀ p, a.IsSound spaced p := by
    intro a ha
    obtain ⟨s, hs, rfl⟩ := List.mem_map.1 ha
    exact isSound_line (.fixed (hneat s hs))
  have hends : ((joined (banner.map line)).write p).EndsLine :=
    Printer.endsLine_newline_write (s := "/* eslint-disable */") (by decide) _
  exact (isSound_joined hlines p).append (isSound_newline fun _ => .inr hends)

/-- **The layout of a unit takes sound steps.** -/
theorem SourceUnit.isSound_layout {u : SourceUnit}
    (h : ∀ name ∈ Item.namesOfAll u.items, IsNeat spaced name) (p : Printer) :
    u.layout.IsSound spaced p := by
  have hbanner : (if u.hasBanner then joined (banner.map line) ++ newline
      else nothing).IsSound spaced p := by
    split
    · exact isSound_banner p
    · exact isSound_nothing p
  exact hbanner.append (Item.isSound_layoutOfAll none u.items h nofun)

end

end TypedBindings.TypeScript
