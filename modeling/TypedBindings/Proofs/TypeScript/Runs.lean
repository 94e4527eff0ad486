import Mathlib.Data.List.Infix
import TypedBindings.TypeScript.Printer

/-!
# Runs of a printer

What a layout does with a printer, step by step. A step is sound if its text stays on the line and,
where it was chosen because it fits, does fit; what sound steps keep holds in every state of a run.

* `Step`, `run`: the steps and where they lead.
* `exists_run_behind`: a run depends on the place where it begins, not on what is written already.
* `Sound`: the runs in which every step is sound where it is taken.
* `Sound.counts`: the column is the length of the current line in every state.
* `Sound.fits`: what was chosen because it fits ends within the width.
* `Sound.exists_start`: each line that is not empty was started at a level, and begins with the
  indentation of that level.
* `Sound.isSpaced`: in a spaced run, no two lines in a row are left empty.
-/

namespace TypedBindings.TypeScript.Printer

/-- One thing that a layout does with a printer. -/
inductive Step where
  /-- Puts text on the line. -/
  | text (s : String)
  /-- Puts text on the line because it fits there, with so many bytes behind it. -/
  | flat (s : String) (tail : Nat)
  | newline
  /-- Leaves a line empty, behind one that is not empty. -/
  | blank
  /-- Goes one level deeper. -/
  | deeper
  /-- Goes one level back. -/
  | back
deriving DecidableEq, Repr

def Step.perform : Step → Printer → Printer
  | .text s, p => p.write s
  | .flat s _, p => p.write s
  | .newline, p => p.newline
  | .blank, p => p.newline
  | .deeper, p => { p with indent := p.indent + 1 }
  | .back, p => { p with indent := p.indent - 1 }

/-- Takes steps, one after the other. -/
def run (steps : List Step) (p : Printer) : Printer := steps.foldl (fun p s => s.perform p) p

theorem run_cons (s : Step) (rest : List Step) (p : Printer) :
    run (s :: rest) p = run rest (s.perform p) := rfl

theorem run_append (a b : List Step) (p : Printer) : run (a ++ b) p = run b (run a p) :=
  List.foldl_append

theorem toList_text (p : Printer) : p.text.toList = p.written.reverse := String.toList_ofList

/-- The characters since the last line break. -/
def currentLine (p : Printer) : List Char := (p.written.takeWhile (· ≠ '\n')).reverse

/-! ## Places -/

/-- Where a printer stands. -/
structure Place where
  indent : Nat := 0
  column : Nat := 0

def place (p : Printer) : Place := ⟨p.indent, p.column⟩

/-- The printer that stands at a place behind some text, the last character first. -/
def Place.behind (l : Place) (written : List Char) : Printer := ⟨written, l.indent, l.column⟩

/-- The printer that stands at a place of an empty page. -/
def Place.page (l : Place) : Printer := l.behind []

/-- The place that steps lead to. -/
def Place.after (l : Place) (steps : List Step) : Place := (run steps l.page).place

theorem behind_place (p : Printer) : p.place.behind p.written = p := rfl

theorem exists_perform_behind (s : Step) (l : Place) :
    ∃ t, ∀ w, s.perform (l.behind w) = (l.after [s]).behind (t ++ w) := by
  have hwrite : ∀ s : String, ∃ t, ∀ w,
      (l.behind w).write s = (l.page.write s).place.behind (t ++ w) := by
    intro s
    by_cases hempty : s.isEmpty
    · refine ⟨[], fun w => ?_⟩
      simp only [write, hempty, if_true]
      rfl
    · by_cases hcolumn : l.column = 0
      · refine ⟨s.toList.reverse ++ List.replicate (2 * l.indent) ' ', fun w => ?_⟩
        simp [write, hempty, startLine, push, Place.behind, Place.page, place, hcolumn]
      · refine ⟨s.toList.reverse, fun w => ?_⟩
        simp [write, hempty, startLine, push, Place.behind, Place.page, place, hcolumn]
  cases s with
  | text s => exact hwrite s
  | flat s _ => exact hwrite s
  | newline => exact ⟨['\n'], fun _ => rfl⟩
  | blank => exact ⟨['\n'], fun _ => rfl⟩
  | deeper => exact ⟨[], fun _ => rfl⟩
  | back => exact ⟨[], fun _ => rfl⟩

/-- **A run depends on the place alone**: it adds one text, whatever is written already. -/
theorem exists_run_behind (steps : List Step) (l : Place) :
    ∃ t, ∀ w, run steps (l.behind w) = (l.after steps).behind (t ++ w) := by
  induction steps generalizing l with
  | nil => exact ⟨[], fun _ => rfl⟩
  | cons s rest ih =>
    obtain ⟨t, ht⟩ := exists_perform_behind s l
    obtain ⟨u, hu⟩ := ih (l.after [s])
    have hplace : l.after (s :: rest) = (l.after [s]).after rest := by
      have hpage : run (s :: rest) l.page = run rest ((l.after [s]).behind (t ++ [])) :=
        congrArg (run rest) (ht [])
      unfold Place.after
      rw [hpage, hu]
      rfl
    refine ⟨u ++ t, fun w => ?_⟩
    rw [run_cons, ht, hu, hplace, List.append_assoc]

theorem place_run (steps : List Step) (p : Printer) :
    (run steps p).place = p.place.after steps := by
  obtain ⟨t, ht⟩ := exists_run_behind steps p.place
  rw [← behind_place p, ht]
  rfl

/-! ## Sound steps -/

/-- The last line is complete and not empty. -/
def EndsLine (p : Printer) : Prop := ∃ c w, p.written = '\n' :: c :: w ∧ c ≠ '\n'

/-- A step is sound if its text stays on the line, and fits where that was the reason for it, and if
a line that it leaves empty follows one that is not. In a `spaced` run, besides, a line ends only if
it has something on it or the one before it has. -/
def Step.IsSound (spaced : Prop) (p : Printer) : Step → Prop
  | .text s => '\n' ∉ s.toList
  | .flat s tail => '\n' ∉ s.toList ∧ p.fits (s.utf8ByteSize + tail) = true
  | .newline => spaced → p.column ≠ 0 ∨ p.EndsLine
  | .blank => p.EndsLine
  | .deeper => True
  | .back => True

/-- Every step of a run is sound where it is taken. -/
def Sound (spaced : Prop) : List Step → Printer → Prop
  | [], _ => True
  | s :: rest, p => s.IsSound spaced p ∧ Sound spaced rest (s.perform p)

variable {spaced : Prop} {p : Printer} {a b steps : List Step}

theorem sound_append : Sound spaced (a ++ b) p ↔ Sound spaced a p ∧ Sound spaced b (run a p) := by
  induction a generalizing p with
  | nil => exact ⟨fun h => ⟨trivial, h⟩, fun h => h.2⟩
  | cons s rest ih => rw [List.cons_append, Sound, Sound, ih, run_cons, and_assoc]

/-- What sound steps keep holds behind them. -/
theorem Sound.run_induction {P : Printer → Prop}
    (hstep : ∀ p s, Step.IsSound spaced p s → P p → P (s.perform p)) (h : Sound spaced steps p)
    (hp : P p) : P (run steps p) := by
  induction steps generalizing p with
  | nil => exact hp
  | cons s rest ih => exact ih h.2 (hstep p s h.1 hp)

/-- What sound steps keep holds behind each part of a run. -/
theorem Sound.prefix_induction {P : Printer → Prop}
    (hstep : ∀ p s, Step.IsSound spaced p s → P p → P (s.perform p)) (h : Sound spaced steps p)
    (hp : P p) {before : List Step} (hbefore : before <+: steps) : P (run before p) := by
  obtain ⟨rest, rfl⟩ := hbefore
  exact (sound_append.1 h).1.run_induction hstep hp

theorem Sound.step_of_prefix (h : Sound spaced steps p) {before : List Step} {s : Step}
    (hbefore : before ++ [s] <+: steps) : s.IsSound spaced (run before p) := by
  obtain ⟨rest, rfl⟩ := hbefore
  exact (sound_append.1 (sound_append.1 h).1).2.1

/-! ## Writing -/

section

variable {s : String}

theorem write_empty (p : Printer) : p.write "" = p := rfl

theorem write_of_ne (hs : s ≠ "") (p : Printer) : p.write s = p.startLine.push s := by
  unfold write
  rw [if_neg (by simpa using hs)]

/-- What text adds to a page. -/
def added (p : Printer) (s : String) : List Char :=
  (if p.column = 0 then List.replicate (2 * p.indent) ' ' else []) ++ s.toList

theorem not_mem_added (hs : '\n' ∉ s.toList) (p : Printer) : '\n' ∉ p.added s := by
  unfold added
  split <;> simp [hs]

theorem written_write (hs : s ≠ "") (p : Printer) :
    (p.write s).written = (p.added s).reverse ++ p.written := by
  rw [write_of_ne hs, push, List.reverseAux_eq, startLine, added, List.reverse_append]
  split <;> simp

theorem column_write (hs : s ≠ "") (p : Printer) :
    (p.write s).column = p.position + s.length := by
  rw [write_of_ne hs, push, startLine, position]
  split <;> rfl

theorem indent_write (s : String) (p : Printer) : (p.write s).indent = p.indent := by
  unfold write push startLine
  split
  · rfl
  · split <;> rfl

theorem column_write_le (s : String) (p : Printer) :
    (p.write s).column ≤ p.position + s.length := by
  by_cases hs : s = ""
  · subst hs
    rw [write_empty]
    unfold position
    split <;> omega
  · exact (column_write hs p).le

end

/-! ## The column -/

/-- The column is the length of the current line. -/
def Counts (p : Printer) : Prop := p.column = p.currentLine.length

theorem counts_fresh : Counts {} := rfl

theorem Counts.column_eq_zero_iff (h : p.Counts) :
    p.column = 0 ↔ p.written = [] ∨ p.written.head? = some '\n' := by
  unfold Counts currentLine at h
  rw [h, List.length_reverse, List.length_eq_zero_iff]
  cases p.written with
  | nil => simp
  | cons c rest => by_cases hc : c = '\n' <;> simp [hc]

theorem takeWhile_append_of_not_mem {t : List Char} (ht : '\n' ∉ t) (w : List Char) :
    (t ++ w).takeWhile (· ≠ '\n') = t ++ w.takeWhile (· ≠ '\n') := by
  refine List.takeWhile_append_of_pos fun c hc => ?_
  have hne : c ≠ '\n' := fun he => ht (he ▸ hc)
  simpa using hne

theorem Counts.write (h : p.Counts) {s : String} (hs : '\n' ∉ s.toList) : (p.write s).Counts := by
  by_cases hempty : s = ""
  · exact hempty ▸ h
  have hadded : '\n' ∉ (p.added s).reverse := fun hmem =>
    not_mem_added hs p (List.mem_reverse.1 hmem)
  unfold Counts currentLine at h ⊢
  rw [column_write hempty, written_write hempty, takeWhile_append_of_not_mem hadded]
  unfold added position
  split
  all_goals
    simp only [List.nil_append, List.length_reverse, List.length_append, List.length_replicate,
      String.length_toList] at h ⊢
    omega

/-- **Sound steps keep count of the column.** -/
theorem Counts.perform (h : p.Counts) {s : Step} (hs : s.IsSound spaced p) :
    (s.perform p).Counts := by
  cases s with
  | text s => exact h.write hs
  | flat s tail => exact h.write hs.1
  | newline => rfl
  | blank => rfl
  | deeper => exact h
  | back => exact h

/-- The column is the length of the current line in every state of a run. -/
theorem Sound.counts (h : Sound spaced steps p) (hp : p.Counts) {before : List Step}
    (hbefore : before <+: steps) : (run before p).Counts :=
  h.prefix_induction (fun _ _ hs hp => hp.perform hs) hp hbefore

/-- A character takes a byte at least. -/
theorem length_le_utf8ByteSize (s : String) : s.length ≤ s.utf8ByteSize := by
  have hlist : ∀ cs : List Char, cs.length ≤ (String.ofList cs).utf8ByteSize := by
    intro cs
    induction cs with
    | nil => exact Nat.zero_le _
    | cons c rest ih =>
      have hc := c.utf8Size_pos
      rw [← List.singleton_append, String.ofList_append, String.utf8ByteSize_append,
        ← String.singleton_eq_ofList, String.utf8ByteSize_singleton, List.singleton_append,
        List.length_cons]
      omega
  have hs := hlist s.toList
  rwa [String.ofList_toList, String.length_toList] at hs

/-- **What was chosen because it fits ends within the width**, with what has to follow it. -/
theorem Sound.fits (h : Sound spaced steps p) (hp : p.Counts) {before : List Step} {s : String}
    {tail : Nat} (hbefore : before ++ [.flat s tail] <+: steps) :
    ((run before p).write s).currentLine.length + tail ≤ maxWidth := by
  obtain ⟨hline, hfits⟩ := h.step_of_prefix hbefore
  have hcounts := (h.counts hp ((List.prefix_append ..).trans hbefore)).write hline
  have hwidth : (run before p).position + (s.utf8ByteSize + tail) ≤ maxWidth :=
    of_decide_eq_true hfits
  have hcolumn := column_write_le s (run before p)
  have hbytes := length_le_utf8ByteSize s
  unfold Counts at hcounts
  omega

/-! ## The lines -/

/-- A line of a text, with what is in front of it and behind it. -/
structure Line (text : String) where
  front : List Char
  line : List Char
  back : List Char
  eq_append : text.toList = front ++ (line ++ back)
  no_break : '\n' ∉ line
  starts : front = [] ∨ front.getLast? = some '\n'
  ends : back = [] ∨ back.head? = some '\n'

/-- What stands in front on a line, with no break in it, stands on the line. -/
theorem Line.prefix_line {text : String} (l : Line text) {cs : List Char} (hcs : '\n' ∉ cs)
    (h : cs <+: l.line ++ l.back) : cs <+: l.line := by
  have hends := l.ends
  cases hback : l.back with
  | nil => rwa [hback, List.append_nil] at h
  | cons c rest =>
    rw [hback] at h hends
    have hc : c = '\n' := by simpa using hends
    subst hc
    rcases Nat.lt_or_ge l.line.length cs.length with hlong | hshort
    · have hbreak : l.line ++ ['\n'] <+: cs :=
        List.prefix_of_prefix_length_le (by simp) h (by simpa [Nat.succ_le_iff] using hlong)
      exact absurd (hbreak.subset (List.mem_append_right _ (List.mem_singleton_self _))) hcs
    · exact List.prefix_of_prefix_length_le h (List.prefix_append ..) hshort

theorem exists_written_run (steps : List Step) (p : Printer) :
    ∃ t, (run steps p).written = t ++ p.written := by
  obtain ⟨t, ht⟩ := exists_run_behind steps p.place
  exact ⟨t, congrArg Printer.written (ht p.written)⟩

/-- What is written grows beyond a length at one of the steps. -/
theorem exists_crossing {n : Nat} (hp : p.written.length ≤ n)
    (h : n < (run steps p).written.length) :
    ∃ before s rest, steps = before ++ s :: rest ∧ (run before p).written.length ≤ n ∧
      n < (s.perform (run before p)).written.length := by
  induction steps generalizing p with
  | nil => exact absurd h (Nat.not_lt.2 hp)
  | cons s rest ih =>
    by_cases hs : n < (s.perform p).written.length
    · exact ⟨[], s, rest, rfl, hp, hs⟩
    · obtain ⟨before, s', rest', rfl, hle, hlt⟩ := ih (Nat.not_lt.1 hs) h
      exact ⟨s :: before, s', rest', rfl, hle, hlt⟩

/-- Characters with no break among them that reach into a line from in front of it start there. -/
theorem Line.eq_front {text : String} (l : Line text) {cs ds rest : List Char}
    (htext : text.toList = cs ++ (ds ++ rest)) (hds : '\n' ∉ ds)
    (hle : cs.length ≤ l.front.length) (hlt : l.front.length < (cs ++ ds).length) :
    cs = l.front := by
  rw [l.eq_append] at htext
  obtain ⟨m, hm⟩ : cs <+: l.front :=
    List.prefix_of_prefix_length_le ⟨_, htext.symm⟩ (List.prefix_append ..) hle
  have hrest : m ++ (l.line ++ l.back) = ds ++ rest := by
    rw [← hm, List.append_assoc] at htext
    exact List.append_cancel_left htext
  have hlength : m.length ≤ ds.length := by
    rw [← hm, List.length_append, List.length_append] at hlt
    omega
  have hahead : m <+: ds :=
    List.prefix_of_prefix_length_le ⟨_, hrest⟩ (List.prefix_append ..) hlength
  -- what is left of the front would end with a line break
  have hm_nil : m = [] := by
    by_contra hm_ne
    rcases l.starts with hnil | hbreak
    · exact hm_ne (List.append_eq_nil_iff.1 (hm.trans hnil)).2
    · rw [← hm, List.getLast?_append_of_ne_nil _ hm_ne] at hbreak
      exact hds (hahead.subset (List.mem_of_getLast? hbreak))
  rw [← hm, hm_nil, List.append_nil]

/-- Text that is put on a line of which nothing is there yet starts the line. -/
theorem Line.starts_at_write {text : String} (l : Line text) (hp : p.Counts) {s : String}
    (hs : '\n' ∉ s.toList) (hle : p.written.length ≤ l.front.length)
    (hlt : l.front.length < (p.write s).written.length)
    (htext : (p.write s).written.reverse <+: text.toList) :
    p.written.reverse = l.front ∧ p.column = 0 ∧ (p.write s).column ≠ 0 ∧
      List.replicate (2 * p.indent) ' ' <+: l.line := by
  have hne : s ≠ "" := by
    rintro rfl
    exact absurd hlt (Nat.not_lt.2 hle)
  have hwritten : (p.write s).written.reverse = p.written.reverse ++ p.added s := by
    rw [written_write hne, List.reverse_append, List.reverse_reverse]
  obtain ⟨rest, htext⟩ := htext
  rw [hwritten, List.append_assoc] at htext
  have hfront : p.written.reverse = l.front := by
    refine l.eq_front htext.symm (not_mem_added hs p) (by simpa using hle) ?_
    rwa [← hwritten, List.length_reverse]
  have hcolumn : p.column = 0 := by
    refine hp.column_eq_zero_iff.2 ?_
    rcases l.starts with hnil | hbreak
    · exact .inl (List.reverse_eq_nil_iff.1 (hfront.trans hnil))
    · exact .inr (by rwa [← hfront, List.getLast?_reverse] at hbreak)
  have hline : p.added s ++ rest = l.line ++ l.back := by
    rw [l.eq_append, hfront] at htext
    exact List.append_cancel_left htext
  have hblanks : List.replicate (2 * p.indent) ' ' <+: l.line ++ l.back := by
    rw [← hline, added, if_pos hcolumn, List.append_assoc]
    exact List.prefix_append ..
  have hlength : s.length ≠ 0 := by simpa using hne
  exact ⟨hfront, hcolumn, by rw [column_write hne]; omega, l.prefix_line (by simp) hblanks⟩

/-- A line that is not empty does not begin with a line break. -/
theorem Line.not_begun_by_newline {text : String} (l : Line text) (hline : l.line ≠ [])
    (hle : p.written.length ≤ l.front.length) (hlt : l.front.length < p.newline.written.length) :
    ¬ p.newline.written.reverse <+: text.toList := by
  rintro ⟨rest, htext⟩
  obtain ⟨c, cs, hcs⟩ := List.exists_cons_of_ne_nil hline
  have hwritten : p.newline.written = '\n' :: p.written := rfl
  rw [hwritten, List.reverse_cons, List.append_assoc, l.eq_append, hcs] at htext
  rw [hwritten, List.length_cons] at hlt
  have hlength : p.written.reverse.length = l.front.length := by
    rw [List.length_reverse]
    omega
  have hc : '\n' = c := (List.cons.inj (List.append_inj htext hlength).2).1
  exact l.no_break (hcs ▸ hc ▸ List.mem_cons_self)

/-- **Each line that is not empty was started at a level**, and begins with its indentation. -/
theorem Sound.exists_start (h : Sound spaced steps {}) (l : Line (run steps {}).text)
    (hline : l.line ≠ []) :
    ∃ before s, before ++ [s] <+: steps ∧ (run before {}).text.toList = l.front ∧
      (run before {}).column = 0 ∧ (run (before ++ [s]) {}).column ≠ 0 ∧
      List.replicate (2 * (run before {}).indent) ' ' <+: l.line := by
  have hlength := congrArg List.length l.eq_append
  have hpositive := List.length_pos_of_ne_nil hline
  rw [toList_text, List.length_reverse, List.length_append, List.length_append] at hlength
  have hcrosses : l.front.length < (run steps {}).written.length := by omega
  -- The step with which the text grows past the front of the line is the one that starts it.
  obtain ⟨before, s, rest, rfl, hle, hlt⟩ := exists_crossing (Nat.zero_le _) hcrosses
  have hbefore : before ++ [s] <+: before ++ s :: rest := ⟨rest, by simp⟩
  have hsound := h.step_of_prefix hbefore
  have hcounts := h.counts counts_fresh ((List.prefix_append ..).trans hbefore)
  obtain ⟨u, hu⟩ := exists_written_run rest (s.perform (run before {}))
  have htext : (s.perform (run before {})).written.reverse <+:
      (run (before ++ s :: rest) {}).text.toList := by
    rw [toList_text, run_append, run_cons, hu, List.reverse_append]
    exact List.prefix_append ..
  have hafter : run (before ++ [s]) {} = s.perform (run before {}) := run_append before [s] {}
  have hwrite : ∀ t, '\n' ∉ t.toList → s.perform (run before {}) = (run before {}).write t →
      (run before {}).text.toList = l.front ∧ (run before {}).column = 0 ∧
        (run (before ++ [s]) {}).column ≠ 0 ∧
        List.replicate (2 * (run before {}).indent) ' ' <+: l.line := by
    intro t ht hs
    rw [hs] at hlt htext
    rw [hafter, hs, toList_text]
    exact l.starts_at_write hcounts ht hle hlt htext
  refine ⟨before, s, hbefore, ?_⟩
  -- Line ends do not begin a line that is not empty, and levels write nothing.
  cases s with
  | text t => exact hwrite t hsound rfl
  | flat t tail => exact hwrite t hsound.1 rfl
  | newline => exact absurd htext (l.not_begun_by_newline hline hle hlt)
  | blank => exact absurd htext (l.not_begun_by_newline hline hle hlt)
  | deeper => exact absurd hlt (Nat.not_lt.2 hle)
  | back => exact absurd hlt (Nat.not_lt.2 hle)

/-! ## Empty lines -/

/-- The text does not begin with an empty line and has no two empty lines in a row. -/
def IsSpaced (p : Printer) : Prop :=
  p.written.getLast? ≠ some '\n' ∧ ¬ ['\n', '\n', '\n'] <:+: p.written

theorem infix_of_infix_append {t w : List Char} (ht : '\n' ∉ t)
    (h : ['\n', '\n', '\n'] <:+: t ++ w) : ['\n', '\n', '\n'] <:+: w := by
  induction t with
  | nil => exact h
  | cons c rest ih =>
    have hc : '\n' ≠ c := fun he => ht (he ▸ List.mem_cons_self)
    have hrest : '\n' ∉ rest := fun hmem => ht (List.mem_cons_of_mem c hmem)
    rcases List.infix_cons_iff.1 h with hhere | hlater
    · exact absurd (List.cons_prefix_cons.1 hhere).1 hc
    · exact ih hrest hlater

theorem IsSpaced.write (h : p.IsSpaced) {s : String} (hs : '\n' ∉ s.toList) :
    (p.write s).IsSpaced := by
  by_cases hempty : s = ""
  · exact hempty ▸ h
  have hadded : '\n' ∉ (p.added s).reverse := fun hmem =>
    not_mem_added hs p (List.mem_reverse.1 hmem)
  unfold IsSpaced
  rw [written_write hempty]
  refine ⟨fun hlast => ?_, fun htriple => h.2 (infix_of_infix_append hadded htriple)⟩
  rw [List.getLast?_append] at hlast
  rcases Option.or_eq_some_iff.1 hlast with hold | ⟨-, hnew⟩
  · exact h.1 hold
  · exact hadded (List.mem_of_getLast? hnew)

/-- Behind a line that is not empty, or in the middle of one, one line may end. -/
theorem Counts.ends_once (h : p.Counts) (hline : p.column ≠ 0 ∨ p.EndsLine) :
    p.written ≠ [] ∧ ¬ ['\n', '\n'] <+: p.written := by
  rcases hline with hcolumn | ⟨c, w, hend, hc⟩
  · rw [Ne, h.column_eq_zero_iff, not_or] at hcolumn
    refine ⟨hcolumn.1, fun ⟨w, hw⟩ => hcolumn.2 ?_⟩
    rw [← hw]
    rfl
  · rw [hend]
    refine ⟨List.cons_ne_nil _ _, fun hprefix => hc ?_⟩
    exact (List.cons_prefix_cons.1 (List.cons_prefix_cons.1 hprefix).2).1.symm

theorem IsSpaced.newline (h : p.IsSpaced) (hp : p.Counts) (hline : p.column ≠ 0 ∨ p.EndsLine) :
    p.newline.IsSpaced := by
  obtain ⟨hne, hdouble⟩ := hp.ends_once hline
  have hwritten : p.newline.written = '\n' :: p.written := rfl
  unfold IsSpaced
  rw [hwritten, List.getLast?_cons_of_ne_nil hne]
  refine ⟨h.1, fun htriple => ?_⟩
  rcases List.infix_cons_iff.1 htriple with hhere | hlater
  · exact hdouble (List.cons_prefix_cons.1 hhere).2
  · exact h.2 hlater

/-- **Sound steps leave no two lines in a row empty** in a spaced run. -/
theorem IsSpaced.perform (hspaced : spaced) (h : p.IsSpaced) (hp : p.Counts) {s : Step}
    (hs : s.IsSound spaced p) : (s.perform p).IsSpaced := by
  cases s with
  | text s => exact h.write hs
  | flat s tail => exact h.write hs.1
  | newline => exact h.newline hp (hs hspaced)
  | blank => exact h.newline hp (.inr hs)
  | deeper => exact h
  | back => exact h

theorem Sound.isSpaced (h : Sound spaced steps p) (hspaced : spaced) (hp : p.Counts)
    (hspace : p.IsSpaced) : (run steps p).IsSpaced :=
  (h.run_induction (fun _ _ hs hp => ⟨hp.1.perform hs, hp.2.perform hspaced hp.1 hs⟩)
    (P := fun p => p.Counts ∧ p.IsSpaced) ⟨hp, hspace⟩).2

end TypedBindings.TypeScript.Printer
