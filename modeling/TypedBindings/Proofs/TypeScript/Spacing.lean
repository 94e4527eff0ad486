import TypedBindings.Proofs.TypeScript.Items

/-!
# Empty lines between items

Items are written one by one, each as it is written from the start of a line of an empty page at its
level, and between two of them exactly one line is empty, unless they stand close.

* `Item.textAt`: the text of an item at a level.
* `IsParagraph`: what the text of an item is, so that no empty line comes from within an item.
* `Item.composed`: the texts of items one after the other.
* `writeAll_composes`: what is written for items, whatever is written already.
-/

namespace TypedBindings.TypeScript

open Printer

/-! ## Paragraphs -/

/-- A text of complete lines. The first and the last are not empty, and no two in a row are. -/
structure IsParagraph (cs : List Char) : Prop where
  starts : cs.head? ≠ some '\n'
  ends : ∃ front c, cs = front ++ [c, '\n'] ∧ c ≠ '\n'
  spaced : ¬ ['\n', '\n', '\n'] <:+: cs

/-- Two lines in a row are empty, at the start of a text or behind another line. -/
def HasEmptyLines (cs : List Char) : Prop :=
  ['\n', '\n'] <+: cs ∨ ['\n', '\n', '\n'] <:+: cs

namespace Printer

variable {p : Printer}

/-- No two empty lines stand together. -/
theorem IsSpaced.triple (h : p.IsSpaced) : ¬ ['\n', '\n', '\n'] <:+: p.text.toList := by
  rw [toList_text]
  exact fun hinfix => h.2 (List.reverse_infix.1 (by simpa using hinfix))

/-- No empty line comes first. -/
theorem IsSpaced.starts (h : p.IsSpaced) : p.text.toList.head? ≠ some '\n' := by
  rw [toList_text, List.head?_reverse]
  exact h.1

theorem IsSpaced.not_hasEmptyLines (h : p.IsSpaced) : ¬ HasEmptyLines p.text.toList := by
  rintro (⟨rest, hrest⟩ | htriple)
  · exact h.starts (by rw [← hrest]; rfl)
  · exact h.triple htriple

/-- A page that is spaced and ends its last line is a paragraph. -/
theorem IsSpaced.isParagraph (h : p.IsSpaced) (hends : p.EndsLine) :
    IsParagraph p.text.toList where
  starts := h.starts
  ends := by
    obtain ⟨c, w, hend, hc⟩ := hends
    refine ⟨w.reverse, c, ?_, hc⟩
    rw [toList_text, hend]
    simp
  spaced := h.triple

theorem isSpaced_page (level : Nat) : ({ indent := level } : Printer).IsSpaced :=
  ⟨nofun, fun htriple => List.cons_ne_nil _ _ (List.infix_nil.1 htriple)⟩

theorem counts_page (level : Nat) : ({ indent := level } : Printer).Counts := rfl

end Printer

/-- **What a layout adds does not depend on what is written already.** -/
theorem Layout.IsSound.write_eq {spaced : Prop} {a : Layout} {p : Printer} (h : a.IsSound spaced p)
    (hpage : a.IsSound spaced p.place.page) :
    (a.write p).text = p.text ++ (a.write p.place.page).text ∧
      (a.write p).place = (a.write p.place.page).place := by
  obtain ⟨t, ht⟩ := exists_run_behind (a.steps p.place) p.place
  have hp : a.write p = (p.place.after (a.steps p.place)).behind (t ++ p.written) :=
    h.run_eq ▸ ht p.written
  have hq : a.write p.place.page = (p.place.after (a.steps p.place)).behind (t ++ []) :=
    hpage.run_eq ▸ ht []
  rw [hp, hq, ← String.toList_inj, String.toList_append, toList_text, toList_text, toList_text]
  constructor
  · show (t ++ p.written).reverse = p.written.reverse ++ (t ++ []).reverse
    rw [List.append_nil, List.reverse_append]
  · rfl

/-! ## Items -/

namespace Item

/-- The text of an item that is written from the start of a line at a level. -/
def textAt (level : Nat) (i : Item) : String := (i.write { indent := level }).text

/-- Items with no empty line between them: something behind a comment, two imports or two
re-exports. -/
def StandsClose (i next : Item) : Prop :=
  (∃ text, i = .comment text) ∨ (∃ a b, i = .importDecl a ∧ next = .importDecl b) ∨
    ∃ a b, i = .reExport a ∧ next = .reExport b

theorem isSetApart_eq_false_iff {i next : Item} :
    i.isSetApart next = false ↔ i.StandsClose next := by
  unfold StandsClose
  cases i <;> cases next <;> simp [isSetApart]

instance (i next : Item) : Decidable (i.StandsClose next) :=
  decidable_of_iff _ isSetApart_eq_false_iff

/-- The texts of items behind an item, with an empty line in front of each that does not stand close
to the one before. -/
def composedBehind (level : Nat) (i : Item) : List Item → String
  | [] => ""
  | next :: rest =>
    (if i.StandsClose next then "" else "\n") ++ next.textAt level ++ composedBehind level next rest

/-- **The texts of items one after the other**, with an empty line between two that do not stand
close. -/
def composed (level : Nat) : List Item → String
  | [] => ""
  | i :: rest => i.textAt level ++ composedBehind level i rest

variable {i : Item} {p : Printer}

/-- The text of an item is a paragraph at every level. -/
theorem isParagraph_textAt (h : ∀ name ∈ i.names, IsNeat True name) (level : Nat) :
    IsParagraph (i.textAt level).toList := by
  have hitem := i.completes_layout h { indent := level }
  exact (hitem.sound.isSpaced trivial (counts_page level) (isSpaced_page level)).isParagraph
    hitem.ends

theorem ends_write (h : ∀ name ∈ i.names, IsNeat True name) (p : Printer) :
    (i.write p).EndsLine := (i.completes_layout h p).ends

/-- **An item adds its text** wherever a line starts, and leaves the start of a line. -/
theorem text_write (h : ∀ name ∈ i.names, IsNeat True name) (hp : p.column = 0) :
    (i.write p).text = p.text ++ i.textAt p.indent ∧ (i.write p).column = 0 := by
  have hpage : p.place.page = { indent := p.indent } := by
    show ({ indent := p.indent, column := p.column } : Printer) = _
    rw [hp]
  obtain ⟨htext, hplace⟩ := (i.completes_layout h p).sound.write_eq
    (i.completes_layout h p.place.page).sound
  rw [hpage] at htext hplace
  refine ⟨htext, ?_⟩
  have hcolumn : (i.write { indent := p.indent }).column = 0 := by
    obtain ⟨c, w, hend, -⟩ := ends_write h { indent := p.indent }
    have hcounts : (i.write { indent := p.indent }).Counts :=
      (i.completes_layout h _).sound.counts (counts_page p.indent)
    exact hcounts.column_eq_zero_iff.2 (.inr (by rw [hend]; rfl))
  exact (congrArg Place.column hplace).trans hcolumn

/-- Between two items there is one empty line or none, and the level stays. -/
theorem text_space (i next : Item) (hends : p.EndsLine) (hp : p.column = 0) :
    ((space (some i) next).write p).text = p.text ++ (if i.StandsClose next then "" else "\n") ∧
      ((space (some i) next).write p).indent = p.indent ∧
      ((space (some i) next).write p).column = 0 := by
  have hnewline : p.newline.text = p.text ++ "\n" := by
    rw [← String.toList_inj, String.toList_append, toList_text, toList_text]
    exact List.reverse_cons
  have hspace : space (some i) next =
      if i.isSetApart next then Layout.blankLine else Layout.nothing := rfl
  rw [hspace]
  by_cases hclose : i.StandsClose next
  · rw [if_pos hclose, if_neg (by simp [isSetApart_eq_false_iff.2 hclose]), String.append_empty]
    exact ⟨rfl, rfl, hp⟩
  · have hapart : i.isSetApart next = true :=
      eq_true_of_ne_false fun hfalse => hclose (isSetApart_eq_false_iff.1 hfalse)
    have hblank : Layout.blankLine.write p = p.newline := blankLine_eq_newline hends
    rw [if_neg hclose, if_pos hapart, hblank]
    exact ⟨hnewline, rfl, rfl⟩

theorem writeAll_cons (previous : Option Item) (i : Item) (rest : List Item) (p : Printer) :
    writeAll previous (i :: rest) p =
      writeAll (some i) rest (i.write ((space previous i).write p)) := rfl

/-- Items behind an item add their texts. -/
theorem text_writeAll_some {items : List Item} (h : ∀ name ∈ namesOfAll items, IsNeat True name)
    (hends : p.EndsLine) (hp : p.column = 0) :
    (writeAll (some i) items p).text = p.text ++ composedBehind p.indent i items := by
  induction items generalizing i p with
  | nil => exact String.append_empty.symm
  | cons next rest ih =>
    obtain ⟨hnext, hrest⟩ := List.forall_mem_append.1 h
    obtain ⟨hspace, hindent, hcolumn⟩ := text_space i next hends hp
    have hlines := ends_write hnext ((space (some i) next).write p)
    obtain ⟨htext, hstart⟩ := text_write hnext hcolumn
    have hlevel : (next.write ((space (some i) next).write p)).indent = p.indent :=
      (next.layout.indent_write _).trans hindent
    rw [writeAll_cons, ih hrest hlines hstart, htext, hspace, hindent, hlevel, composedBehind,
      String.append_assoc, String.append_assoc, String.append_assoc]

/-- The names in an item are among those of its list. -/
theorem mem_namesOfAll {items : List Item} (hi : i ∈ items) {name : String}
    (hname : name ∈ i.names) : name ∈ namesOfAll items := by
  induction items with
  | nil => cases hi
  | cons first rest ih =>
    rcases List.mem_cons.1 hi with rfl | hrest
    · exact List.mem_append_left _ hname
    · exact List.mem_append_right _ (ih hrest)

/-- **What is written for items** whose names are not empty and on one line. From the start of a
line, whatever is written already, it is their texts one after the other, each of which is a
paragraph, with an empty line between two that do not stand close, and each item leaves the level as
it was. A unit with the items has no two empty lines in a row. -/
theorem writeAll_composes {items : List Item}
    (h : ∀ name ∈ namesOfAll items, name ≠ "" ∧ '\n' ∉ name.toList) :
    (∀ p : Printer, p.column = 0 →
      (writeAll none items p).text = p.text ++ composed p.indent items ∧
      (writeAll none items p).indent = p.indent ∧
      ∀ i ∈ items, (i.write p).text = p.text ++ i.textAt p.indent ∧ (i.write p).indent = p.indent ∧
        (i.write p).column = 0 ∧ IsParagraph (i.textAt p.indent).toList) ∧
    ∀ u : SourceUnit, u.items = items → ¬ HasEmptyLines u.render.toList := by
  have hneat : ∀ name ∈ namesOfAll items, IsNeat True name := fun name hname =>
    ⟨(h name hname).2, fun _ => (h name hname).1⟩
  refine ⟨fun p hp => ⟨?_, ?_, fun i hi => ?_⟩, ?_⟩
  · -- No space is put in front of the first item; behind it every item has one in front.
    cases items with
    | nil => exact String.append_empty.symm
    | cons i rest =>
      obtain ⟨hi, hrest⟩ := List.forall_mem_append.1 hneat
      obtain ⟨htext, hstart⟩ := text_write hi hp
      have hlevel : (i.write p).indent = p.indent := i.layout.indent_write p
      show (writeAll (some i) rest (i.write p)).text = _
      rw [text_writeAll_some hrest (ends_write hi p) hstart, htext, hlevel, composed,
        String.append_assoc]
  · exact (layoutOfAll none items).indent_write p
  · have hitem : ∀ name ∈ i.names, IsNeat True name := fun name hname =>
      hneat name (mem_namesOfAll hi hname)
    obtain ⟨htext, hstart⟩ := text_write hitem hp
    exact ⟨htext, i.layout.indent_write p, hstart, isParagraph_textAt hitem p.indent⟩
  · rintro u rfl
    have hunit := SourceUnit.isSound_layout hneat {}
    exact (hunit.isSpaced trivial (counts_page 0) (isSpaced_page 0)).not_hasEmptyLines

/-- Two imports, and a namespace behind a comment. -/
def sampleItems : List Item :=
  [.importDecl ⟨.names ["Coin"], "./Coin"⟩, .importDecl ⟨.names ["Bank"], "./Bank"⟩,
    .comment "Fields", .namespaceDecl "Types"
      [.aliasDecl ⟨"Id", true, [], .named "string"⟩,
        .interfaceDecl ⟨"Fields", true, [.plain "owner" (.named "Id")]⟩]]

theorem writeAll_composes_sampleItems :
    (∀ name ∈ namesOfAll sampleItems, name ≠ "" ∧ '\n' ∉ name.toList) ∧
      (writeAll none sampleItems {}).text = composed 0 sampleItems ∧
      composed 0 sampleItems =
        "import \x7b Coin \x7d from \"./Coin\";\nimport \x7b Bank \x7d from \"./Bank\";\n\n" ++
          "// Fields\nexport namespace Types \x7b\n  export type Id = string;\n\n" ++
          "  export interface Fields \x7b\n    owner: Id;\n  \x7d\n\x7d\n" ∧
      ¬ HasEmptyLines (SourceUnit.render ⟨"coin", true, sampleItems⟩).toList := by
  have hnames : ∀ name ∈ namesOfAll sampleItems, name ≠ "" ∧ '\n' ∉ name.toList := by decide
  have hcomposes := writeAll_composes hnames
  exact ⟨hnames, (hcomposes.1 {} rfl).1, by decide +kernel, hcomposes.2 _ rfl⟩

end Item

end TypedBindings.TypeScript
