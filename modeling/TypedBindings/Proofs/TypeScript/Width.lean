import TypedBindings.Proofs.TypeScript.Items

/-!
# The width of lines

Every text that is rendered from an empty page, be it the text of a unit or one that is only
measured, comes from steps in which the column is counted right, each line begins with the
indentation of the level at which it was started, and what stands on one line because it fits does
fit.

* `Rendering`: what is rendered from an empty page, with its layout and its names.
* `KeepsWidth`: what the steps of a rendering keep.
* `width_is_kept`: every rendering keeps it.
-/

namespace TypedBindings.TypeScript

open Printer

/-- What is rendered from an empty page. -/
inductive Rendering where
  | unit (u : SourceUnit)
  | expr (e : Expr)
  /-- A conditional that is measured on one line. -/
  | conditional (test yes no : Expr)

namespace Rendering

/-- How it is laid out. -/
def layout : Rendering → Layout
  | .unit u => u.layout
  | .expr e => e.layout false
  | .conditional test yes no =>
    condLine (test.layout false) (yes.layout false) (no.layout false)

/-- The names in it. -/
def names : Rendering → List String
  | .unit u => Item.namesOfAll u.items
  | .expr e => e.names
  | .conditional test yes no => test.names ++ yes.names ++ no.names

end Rendering

/-- **What the steps of a layout keep**, from an empty page and in every state on the way. -/
structure KeepsWidth (a : Layout) : Prop where
  run_eq : run (a.steps {}) {} = a.write {}
  /-- The column is the number of characters since the last line break. -/
  column_eq : ∀ before, before <+: a.steps {} →
    (run before {}).column = (run before {}).currentLine.length
  /-- A line that is not empty was started by a step, and begins with the indentation of the level
  in force there. -/
  started : ∀ l : Line a.text, l.line ≠ [] →
    ∃ before s, before ++ [s] <+: a.steps {} ∧ (run before {}).text.toList = l.front ∧
      (run before {}).column = 0 ∧ (run (before ++ [s]) {}).column ≠ 0 ∧
      List.replicate (2 * (run before {}).indent) ' ' <+: l.line
  /-- What is written on one line because it fits ends within the width, with the bytes that were
  left for what follows. -/
  fits : ∀ before s tail, before ++ [.flat s tail] <+: a.steps {} →
    (run (before ++ [.flat s tail]) {}).currentLine.length + tail ≤ maxWidth

theorem Layout.IsSound.keepsWidth {a : Layout} (h : a.IsSound False {}) : KeepsWidth a where
  run_eq := h.run_eq
  column_eq _ hbefore := Sound.counts h counts_fresh hbefore
  started l hline := by
    have htext : a.text = (Printer.run (a.steps {}) {}).text := congrArg Printer.text h.run_eq.symm
    revert l
    rw [htext]
    exact fun l hline => Sound.exists_start h l hline
  fits before s tail hbefore := by
    rw [run_append]
    exact Sound.fits h counts_fresh hbefore

/-- **The width test is sound**: every rendering of trees whose names have no line break in them
keeps what `KeepsWidth` says, whatever characters its strings have. -/
theorem width_is_kept {r : Rendering} (h : ∀ name ∈ r.names, '\n' ∉ name.toList) :
    KeepsWidth r.layout := by
  have hneat : ∀ {names : List String}, (∀ name ∈ names, '\n' ∉ name.toList) →
      ∀ name ∈ names, IsNeat False name := fun hnames name hname => ⟨hnames name hname, nofun⟩
  have hexpr : ∀ e : Expr, (∀ name ∈ e.names, '\n' ∉ name.toList) → ∀ p,
      (e.layout false).Writes False p := fun e he =>
    e.writes_layout false (neatNames_iff.2 (hneat he))
  match r with
  | .unit u => exact (SourceUnit.isSound_layout (hneat h) {}).keepsWidth
  | .expr e => exact (hexpr e h {}).sound.keepsWidth
  | .conditional test yes no =>
    obtain ⟨hfront, hno⟩ := List.forall_mem_append.1 h
    obtain ⟨htest, hyes⟩ := List.forall_mem_append.1 hfront
    exact (writes_condLine (hexpr test htest) (hexpr yes hyes) (hexpr no hno) {}).sound.keepsWidth

/-- A call with its arguments on lines of their own, the first of them an array that fits. -/
def sampleCall : Expr :=
  .callNamed "encodeFields" [.array [.num 1, .str "ä\n"],
    .str "a text that leaves no room for another argument on the line of the call"]

theorem width_is_kept_sampleCall :
    (∀ name ∈ (Rendering.expr sampleCall).names, '\n' ∉ name.toList) ∧
      (Rendering.expr sampleCall).layout.text = "encodeFields(\n  [1, \"ä\\n\"],\n" ++
        "  \"a text that leaves no room for another argument on the line of the call\"\n)" ∧
      KeepsWidth (Rendering.expr sampleCall).layout := by
  have hnames : ∀ name ∈ (Rendering.expr sampleCall).names, '\n' ∉ name.toList := by decide
  exact ⟨hnames, by decide +kernel, width_is_kept hnames⟩

end TypedBindings.TypeScript
