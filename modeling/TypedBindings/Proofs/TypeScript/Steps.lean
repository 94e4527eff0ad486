import TypedBindings.Proofs.TypeScript.OneLine
import TypedBindings.Proofs.TypeScript.Runs

/-!
# Layouts step by step

A layout is read as the steps that it takes, which depend on the place where it begins only. A text
that is put on the line because it fits there is a flat step, with what has to fit behind it. Where
every step is sound, the steps lead where the layout leads.

* `Layout.steps`: the steps that are taken from a place.
* `Layout.IsSound`: every step is sound where it is taken.
* `Layout.IsSound.run_eq`: sound steps do to a printer what the layout does.
* `Layout.Writes`, `Layout.Completes`: besides, the layout leads to the middle of a line, or to the
  start of one behind a line that is not empty.
-/

namespace TypedBindings.TypeScript

namespace Printer

variable {p : Printer} {s : String}

/-- Behind a line that is not empty, an empty line is left by ending one. -/
theorem blankLine_eq_newline (h : p.EndsLine) : p.blankLine = p.newline := by
  obtain ⟨c, w, hend, hc⟩ := h
  unfold blankLine
  rw [hend]
  split
  · next h => cases h
  · next h =>
    cases h
    exact absurd rfl hc
  · rfl

/-- A line with something on it is not at its start. -/
theorem column_write_ne (h : s ≠ "" ∨ p.column ≠ 0) : (p.write s).column ≠ 0 := by
  by_cases hs : s = ""
  · subst hs
    exact h.resolve_left fun hne => hne rfl
  · have hlength : s.length ≠ 0 := by simpa using hs
    rw [column_write hs]
    omega

/-- A line that ends with text of its own is not empty. -/
theorem endsLine_newline_write (hs : OneLine s ∧ s ≠ "") (p : Printer) :
    (p.write s).newline.EndsLine := by
  obtain ⟨hline, hne⟩ := hs
  have hreverse : s.toList.reverse ≠ [] := by simpa using hne
  obtain ⟨c, rest, hc⟩ := List.exists_cons_of_ne_nil hreverse
  have hmem : c ∈ s.toList := List.mem_reverse.1 (hc ▸ List.mem_cons_self)
  have hwritten : (p.write s).newline.written = '\n' :: (p.write s).written := rfl
  rw [written_write hne, added, List.reverse_append, hc, List.cons_append,
    List.cons_append] at hwritten
  exact ⟨c, _, hwritten, fun he => hline (he ▸ hmem)⟩

end Printer

namespace Layout

open Printer

/-! ## Steps -/

/-- The steps of a layout from a place. -/
def steps : Layout → Place → List Step
  | nothing, _ => []
  | put s, _ => [.text s]
  | newline, _ => [.newline]
  | blankLine, _ => [.blank]
  | indented body, l => .deeper :: (body.steps ⟨l.indent + 1, l.column⟩ ++ [.back])
  | append first second, l => first.steps l ++ second.steps (l.after (first.steps l))
  | fitting wanted head tail rest tall, l =>
    if wanted && l.page.fits (head.utf8ByteSize + tail) then
      .flat head tail :: rest.steps (l.after [.flat head tail])
    else tall.steps l

/-- Every step of a layout is sound where it is taken, from a printer. -/
def IsSound (spaced : Prop) (a : Layout) (p : Printer) : Prop := Sound spaced (a.steps p.place) p

/-- A layout leads to the middle of a line, at least in a spaced run. -/
structure Writes (spaced : Prop) (a : Layout) (p : Printer) : Prop where
  sound : a.IsSound spaced p
  column_ne : spaced → (a.write p).column ≠ 0

/-- A layout leads to the start of a line, behind a line that is not empty. -/
structure Completes (spaced : Prop) (a : Layout) (p : Printer) : Prop where
  sound : a.IsSound spaced p
  ends : (a.write p).EndsLine

/-- **A layout leaves the level as it was.** -/
theorem indent_write (a : Layout) (p : Printer) : (a.write p).indent = p.indent := by
  induction a generalizing p with
  | nothing => rfl
  | put s => exact Printer.indent_write s p
  | newline => rfl
  | blankLine =>
    unfold write Printer.blankLine
    split <;> rfl
  | indented body _ => rfl
  | append first second ihfirst ihsecond => exact (ihsecond _).trans (ihfirst p)
  | fitting wanted head tail rest tall ihrest ihtall =>
    unfold write
    split
    · exact (ihrest _).trans (Printer.indent_write head p)
    · exact ihtall p

variable {spaced : Prop} {a b : Layout} {p : Printer} {s : String}

/-- A text that fits leaves a printer where its flat step leaves the place. -/
theorem place_write (p : Printer) (head : String) (tail : Nat) :
    (p.write head).place = p.place.after [.flat head tail] := place_run [.flat head tail] p

/-- **Sound steps do to a printer what the layout does.** -/
theorem IsSound.run_eq (h : a.IsSound spaced p) : run (a.steps p.place) p = a.write p := by
  induction a generalizing p with
  | nothing => rfl
  | put s => rfl
  | newline => rfl
  | blankLine => exact (blankLine_eq_newline h.1).symm
  | indented body ih =>
    have hbody := ih (p := { p with indent := p.indent + 1 }) (sound_append.1 h.2).1
    have hsteps : (indented body).steps p.place =
        .deeper :: (body.steps ({ p with indent := p.indent + 1 } : Printer).place ++ [.back]) := rfl
    -- The last step sets the level back, and the layout does because its body leaves the level
    -- alone.
    have hlevel := body.indent_write { p with indent := p.indent + 1 }
    rw [hsteps, run_cons, run_append]
    show Printer.run [.back] (Printer.run _ { p with indent := p.indent + 1 }) = _
    rw [hbody]
    show ({ body.write { p with indent := p.indent + 1 } with
      indent := (body.write { p with indent := p.indent + 1 }).indent - 1 } : Printer) = _
    rw [hlevel]
    rfl
  | append first second ihfirst ihsecond =>
    obtain ⟨hfirst, hsecond⟩ := sound_append.1 h
    -- The second layout is read at the place where the steps of the first one lead.
    have hplace : p.place.after (first.steps p.place) = (first.write p).place := by
      rw [← ihfirst hfirst, place_run]
    rw [ihfirst hfirst, hplace] at hsecond
    have hsteps : (append first second).steps p.place =
        first.steps p.place ++ second.steps (first.write p).place := by
      rw [← hplace]
      rfl
    rw [hsteps, run_append, ihfirst hfirst, ihsecond hsecond]
    rfl
  | fitting wanted head tail rest tall ihrest ihtall =>
    -- Both measure the text against the same place, so they choose alike.
    have hfits : p.place.page.fits (head.utf8ByteSize + tail) =
        p.fits (head.utf8ByteSize + tail) := rfl
    unfold IsSound steps at h
    unfold steps write
    rw [hfits] at h ⊢
    split at h
    · next hyes =>
      obtain ⟨-, hrest⟩ := h
      rw [← place_write] at hrest
      rw [if_pos hyes, if_pos hyes, ← place_write]
      exact ihrest hrest
    · next hno =>
      rw [if_neg hno, if_neg hno]
      exact ihtall h

/-- What is counted where a layout begins is counted where it leads. -/
theorem IsSound.counts (h : a.IsSound spaced p) (hp : p.Counts) : (a.write p).Counts :=
  h.run_eq ▸ Sound.counts h hp List.prefix_rfl

/-- Sound steps keep a page spaced. -/
theorem IsSound.isSpaced (h : a.IsSound spaced p) (hspaced : spaced) (hp : p.Counts)
    (hspace : p.IsSpaced) : (a.write p).IsSpaced := h.run_eq ▸ Sound.isSpaced h hspaced hp hspace

/-! ## Layouts that are put together -/

theorem isSound_nothing (p : Printer) : nothing.IsSound spaced p := trivial

theorem isSound_put (hs : OneLine s) (p : Printer) : (put s).IsSound spaced p := ⟨hs, trivial⟩

/-- A line may end if it has something on it, or if no line has to. -/
theorem isSound_newline (h : spaced → p.column ≠ 0 ∨ p.EndsLine) : newline.IsSound spaced p :=
  ⟨h, trivial⟩

theorem isSound_blankLine (h : p.EndsLine) : blankLine.IsSound spaced p := ⟨h, trivial⟩

/-- One layout behind another one, from where that leads. -/
theorem IsSound.append (h : a.IsSound spaced p) (h' : b.IsSound spaced (a.write p)) :
    (a ++ b).IsSound spaced p := by
  have hplace : (a.write p).place = p.place.after (a.steps p.place) := by rw [← h.run_eq, place_run]
  have hsteps : (a ++ b).steps p.place = a.steps p.place ++ b.steps (a.write p).place := by
    rw [hplace]
    rfl
  unfold IsSound
  rw [hsteps, sound_append, h.run_eq]
  exact ⟨h, h'⟩

theorem IsSound.appendWrites (h : a.IsSound spaced p) (h' : b.Writes spaced (a.write p)) :
    (a ++ b).Writes spaced p := ⟨h.append h'.sound, h'.column_ne⟩

theorem IsSound.appendCompletes (h : a.IsSound spaced p) (h' : b.Completes spaced (a.write p)) :
    (a ++ b).Completes spaced p := ⟨h.append h'.sound, h'.ends⟩

/-- A text that is not empty leads to the middle of a line. -/
theorem writes_put (hs : IsNeat spaced s) (p : Printer) : (put s).Writes spaced p :=
  ⟨isSound_put hs.1 p, fun hspaced => column_write_ne (.inl (hs.2 hspaced))⟩

theorem IsSound.put (h : a.IsSound spaced p) (hs : OneLine s) :
    (a ++ Layout.put s).IsSound spaced p := h.append (isSound_put hs _)

/-- Puts something on the line. -/
theorem IsSound.putNeat (h : a.IsSound spaced p) (hs : IsNeat spaced s) :
    (a ++ Layout.put s).Writes spaced p := h.appendWrites (writes_put hs _)

/-- Puts perhaps nothing behind what is on the line. -/
theorem Writes.putMore (h : a.Writes spaced p) (hs : OneLine s) :
    (a ++ Layout.put s).Writes spaced p :=
  ⟨h.sound.put hs, fun hspaced => column_write_ne (.inr (h.column_ne hspaced))⟩

/-- Ends the line on which something stands. -/
theorem Writes.endLine (h : a.Writes spaced p) : (a ++ newline).IsSound spaced p :=
  h.sound.append (isSound_newline fun hspaced => .inl (h.column_ne hspaced))

theorem isSound_line (hs : IsNeat spaced s) (p : Printer) : (line s).IsSound spaced p :=
  (writes_put hs p).endLine

theorem IsSound.line (h : a.IsSound spaced p) (hs : IsNeat spaced s) :
    (a ++ Layout.line s).IsSound spaced p := h.append (isSound_line hs _)

/-- A line with a text on it. -/
theorem completes_line (hs : OneLine s ∧ s ≠ "") (p : Printer) : (line s).Completes spaced p :=
  ⟨isSound_line (.fixed hs) p, endsLine_newline_write hs p⟩

theorem IsSound.completes (h : a.IsSound spaced p) (hs : OneLine s ∧ s ≠ "") :
    (a ++ Layout.line s).Completes spaced p := h.appendCompletes (completes_line hs _)

/-- Steps at a deeper level, with the level set back behind them. -/
theorem isSound_indented (h : a.IsSound spaced { p with indent := p.indent + 1 }) :
    (indented a).IsSound spaced p := by
  have hback : Sound spaced (a.steps (p.place.after [.deeper]) ++ [.back])
      { p with indent := p.indent + 1 } := sound_append.2 ⟨h, trivial, trivial⟩
  exact ⟨trivial, hback⟩

theorem IsSound.indented (h : a.IsSound spaced p) (hbody : ∀ r, b.IsSound spaced r) :
    (a ++ Layout.indented b).IsSound spaced p := h.append (isSound_indented (hbody _))

theorem IsSound.indentedWrites (h : a.IsSound spaced p) (hbody : ∀ r, b.Writes spaced r) :
    (a ++ Layout.indented b).Writes spaced p :=
  ⟨h.indented fun r => (hbody r).sound, (hbody _).column_ne⟩

section

variable {first last : String}

/-- Something between two marks, from any printer. -/
theorem isSound_block (hfirst : IsNeat spaced first) (hbody : ∀ r, b.IsSound spaced r)
    (hlast : OneLine last) (p : Printer) : (block first b last).IsSound spaced p :=
  ((isSound_line hfirst p).indented hbody).put hlast

/-- A body between two brackets, each of which ends or starts a line. -/
theorem writes_block (hfirst : IsNeat spaced first) (hbody : ∀ r, b.IsSound spaced r)
    (hlast : IsNeat spaced last) (p : Printer) : (block first b last).Writes spaced p :=
  ((isSound_line hfirst p).indented hbody).putNeat hlast

theorem completes_block (hfirst : IsNeat spaced first) (hbody : ∀ r, b.IsSound spaced r)
    (hlast : OneLine last ∧ last ≠ "") (p : Printer) :
    (block first b last ++ newline).Completes spaced p :=
  ⟨(writes_block hfirst hbody (.fixed hlast) p).endLine, endsLine_newline_write hlast _⟩

end

/-- A layout that is chosen because a text fits, or not. -/
theorem isSound_fitting {wanted : Bool} {head : String} {tail : Nat}
    (hhead : wanted = true → OneLine head ∧ a.IsSound spaced (p.write head))
    (htall : b.IsSound spaced p) : (fitting wanted head tail a b).IsSound spaced p := by
  have hfits : p.place.page.fits (head.utf8ByteSize + tail) =
      p.fits (head.utf8ByteSize + tail) := rfl
  unfold IsSound steps
  rw [hfits]
  split
  · next hyes =>
    obtain ⟨hwanted, hfit⟩ := Bool.and_eq_true_iff.1 hyes
    obtain ⟨hline, hrest⟩ := hhead hwanted
    rw [← place_write]
    exact ⟨⟨hline, hfit⟩, hrest⟩
  · exact htall

/-- Either choice leads to the middle of a line. -/
theorem writes_fitting {wanted : Bool} {head : String} {tail : Nat}
    (hhead : wanted = true → OneLine head ∧ a.Writes spaced (p.write head))
    (htall : b.Writes spaced p) : (fitting wanted head tail a b).Writes spaced p := by
  refine ⟨isSound_fitting (fun hwanted => ?_) htall.sound, fun hspaced => ?_⟩
  · exact ⟨(hhead hwanted).1, (hhead hwanted).2.sound⟩
  · unfold write
    split
    · next hyes => exact (hhead (Bool.and_eq_true_iff.1 hyes).1).2.column_ne hspaced
    · exact htall.column_ne hspaced

/-- A text on one line, if it is one and fits. -/
theorem writes_flatOr {flat : String} {tail : Nat} (hflat : spaced → flat ≠ "")
    (htall : a.Writes spaced p) : (flatOr flat tail a).Writes spaced p :=
  writes_fitting (fun hwanted => ⟨isOneLine_iff.1 hwanted, isSound_nothing _,
    fun hspaced => column_write_ne (.inl (hflat hspaced))⟩) htall

/-- What is written on an empty page is not empty. -/
theorem Writes.text_ne (h : a.Writes spaced {}) (hspaced : spaced) : a.text ≠ "" := by
  intro hempty
  have hwritten : (a.write {}).written = [] := by
    have htoList : a.text.toList = (a.write {}).written.reverse := toList_text _
    rw [hempty] at htoList
    exact List.reverse_eq_nil_iff.1 htoList.symm
  exact h.column_ne hspaced ((h.sound.counts counts_fresh).column_eq_zero_iff.2 (.inl hwritten))

/-! ## Lists of layouts -/

section

variable {as : List Layout}

/-- Layouts one behind the other. -/
theorem isSound_joined (h : ∀ a ∈ as, ∀ p, a.IsSound spaced p) (p : Printer) :
    (joined as).IsSound spaced p := by
  induction as generalizing p with
  | nil => exact isSound_nothing p
  | cons a rest ih =>
    obtain ⟨ha, hrest⟩ := List.forall_mem_cons.1 h
    exact (ha p).append (ih hrest _)

/-- Layouts on lines of their own, each with a mark behind it. -/
theorem isSound_lines {mark : String} (hmark : IsNeat spaced mark)
    (h : ∀ a ∈ as, ∀ p, a.IsSound spaced p) (p : Printer) : (lines mark as).IsSound spaced p := by
  induction as generalizing p with
  | nil => exact isSound_nothing p
  | cons a rest ih =>
    obtain ⟨ha, hrest⟩ := List.forall_mem_cons.1 h
    exact ((ha p).line hmark).append (ih hrest _)

/-- Each line ends with something on it, so the layouts have to put something there. -/
theorem isSound_stacked (h : ∀ a ∈ as, ∀ p, a.Writes spaced p) (p : Printer) :
    (stacked as).IsSound spaced p := by
  induction as generalizing p with
  | nil => exact isSound_nothing p
  | cons a rest ih =>
    obtain ⟨ha, hrest⟩ := List.forall_mem_cons.1 h
    cases rest with
    | nil => exact (ha p).endLine
    | cons next more => exact ((ha p).sound.line (.fixed (by decide))).append (ih hrest _)

/-- Each empty line follows one that is not, so the layouts have to complete theirs. -/
theorem isSound_setApart (h : ∀ a ∈ as, ∀ p, a.Completes spaced p) (p : Printer) :
    (setApart as).IsSound spaced p := by
  induction as generalizing p with
  | nil => exact isSound_nothing p
  | cons a rest ih =>
    obtain ⟨ha, hrest⟩ := List.forall_mem_cons.1 h
    cases rest with
    | nil => exact (ha p).sound
    | cons next more =>
      exact ((ha p).sound.append (isSound_blankLine (ha p).ends)).append (ih hrest _)

end

end Layout

end TypedBindings.TypeScript
