import TypedBindings.TypeScript.Render

/-!
# Printing only adds at the end

Whatever is written later, what a printer has written stays at the front of the text.

* `Printer.Extends`: a printer has written what another one has, and perhaps more.
* `Layout.extends_write`: every layout only adds.
* `SourceUnit.bannerText_prefix_render`: the text of a unit begins with the banner.
-/

namespace TypedBindings.TypeScript

/-- A printer has written what another one has, and perhaps more. The last character comes first. -/
def Printer.Extends (p q : Printer) : Prop := p.written <:+ q.written

namespace Printer.Extends

variable {p q r : Printer}

theorem refl (p : Printer) : p.Extends p := List.suffix_rfl

theorem trans (h : p.Extends q) (h' : q.Extends r) : p.Extends r := List.IsSuffix.trans h h'

theorem push (h : p.Extends q) (s : String) : p.Extends (q.push s) := by
  refine List.IsSuffix.trans h ?_
  unfold Printer.push
  rw [List.reverseAux_eq]
  exact List.suffix_append ..

theorem startLine (h : p.Extends q) : p.Extends q.startLine := by
  refine List.IsSuffix.trans h ?_
  unfold Printer.startLine
  split
  · exact List.suffix_append ..
  · exact List.suffix_rfl

/-- Text is added, with the indentation in front of it where a line starts. -/
theorem write (h : p.Extends q) (s : String) : p.Extends (q.write s) := by
  unfold Printer.write
  split
  · exact h
  · exact h.startLine.push s

/-- The end of a line is added. -/
theorem newline (h : p.Extends q) : p.Extends q.newline :=
  List.IsSuffix.trans h (List.suffix_cons ..)

/-- An empty line is added, if it is. -/
theorem blankLine (h : p.Extends q) : p.Extends q.blankLine := by
  unfold Printer.blankLine
  split
  · exact h
  · exact h
  · exact h.newline

end Printer.Extends

/-- **A layout only adds to what is written.** -/
theorem Layout.extends_write (a : Layout) (p : Printer) : p.Extends (a.write p) := by
  induction a generalizing p with
  | nothing => exact .refl p
  | put s => exact (Printer.Extends.refl p).write s
  | newline => exact (Printer.Extends.refl p).newline
  | blankLine => exact (Printer.Extends.refl p).blankLine
  | indented body ih => exact ih { p with indent := p.indent + 1 }
  | append first second ihfirst ihsecond => exact (ihfirst p).trans (ihsecond _)
  | fitting wanted head tail rest tall ihrest ihtall =>
    unfold write
    split
    · exact ((Printer.Extends.refl p).write head).trans (ihrest _)
    · exact ihtall p

/-- The banner, with the line that it leaves empty. -/
def bannerText : String := "\n".intercalate banner ++ "\n\n"

/-- **The text of a unit with the banner begins with the banner.** -/
theorem SourceUnit.bannerText_prefix_render {u : SourceUnit} (h : u.hasBanner = true) :
    bannerText.toList <+: u.render.toList := by
  let begun : Printer := (Layout.joined (banner.map Layout.line) ++ Layout.newline).write {}
  have hbegun : begun.written = bannerText.toList.reverse := by decide +kernel
  have hrender : u.render = ((Item.layoutOfAll none u.items).write begun).text := by
    unfold SourceUnit.render SourceUnit.layout
    rw [h]
    rfl
  have hsuffix := (Item.layoutOfAll none u.items).extends_write begun
  unfold Printer.Extends at hsuffix
  rw [hbegun] at hsuffix
  rw [hrender, Printer.text, String.toList_ofList]
  simpa using List.reverse_prefix.2 hsuffix

end TypedBindings.TypeScript
