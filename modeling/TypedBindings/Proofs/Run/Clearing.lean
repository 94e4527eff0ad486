import Mathlib.Data.List.Basic
import TypedBindings.Proofs.Files.MadeDirectories
import TypedBindings.Proofs.Run.Course

/-!
# The artifacts and the cleared output directory

Clearing the output directory takes away what is in it and makes directories. The artifacts are
elsewhere, and the same ones are found afterwards.

* `FileTree.cleared?_eq_some_iff`: what is taken away, and what is made.
* `run_clear`: the step as a function of trees, whether it goes through or not.
* `FileTree.candidatesAt`: the files of artifacts below a place.
* `candidatesAt_eq_of_erase_eq`: what is in the output directory is not among them.
* `candidates_cleared`: they are the same before and after clearing.
-/

namespace TypedBindings

open FileTree

variable {t u r : FileTree} {dir : String} {base : List String}

/-! ## Clearing -/

/-- A directory that is removed was there, and all below it goes with it. -/
theorem FileTree.removeDirAll_eq_some (h : t.removeDirAll dir = some r) :
    ∃ p e, t.resolve false dir = .found p ∧ t.entry? p = some e ∧ (∀ text, e ≠ .file text) ∧
      r = t.erase p := by
  unfold removeDirAll at h
  cases hp : t.resolve false dir with
  | found p =>
    rw [hp] at h
    dsimp only at h
    split at h
    · cases h
    · next e hfile he =>
      cases h
      exact ⟨p, e, rfl, he, fun text heq => hfile text heq, rfl⟩
    · cases h
  | vacant p => rw [hp] at h; cases h
  | nowhere => rw [hp] at h; cases h

/-- **What clearing does**: it takes away what the path leads to, if it leads to anything, and then
makes the directory. -/
theorem FileTree.cleared?_eq_some_iff : t.cleared? dir = some u ↔
    ∃ r, (if t.hasEntry dir then t.removeDirAll dir else some t) = some r ∧
      r.createDirAll dir = (u, true) := by
  unfold cleared?
  rw [Option.bind_eq_some_iff]
  refine exists_congr fun r => and_congr_right fun _ => ?_
  obtain ⟨v, made⟩ := r.createDirAll dir
  cases made <;> simp

/-- What clearing gives, and the tree that it leaves. -/
def FileTree.clearing (t : FileTree) (dir : String) : Except FileFault Unit × FileTree :=
  match if t.hasEntry dir then t.removeDirAll dir else some t with
  | none => (.error ⟨.clear, dir, .io⟩, t)
  | some r =>
    (if (r.createDirAll dir).2 then .ok () else .error ⟨.create, dir, .io⟩, (r.createDirAll dir).1)

theorem run_makeDir (s : RunState) (dir : String) : (makeDir dir).run.run s =
      (if (s.tree.createDirAll dir).2 then .ok () else .error ⟨.create, dir, .io⟩,
        { s with tree := (s.tree.createDirAll dir).1 }) := by
  show ((if !(s.tree.createDirAll dir).2 then throw ⟨.create, dir, .io⟩ else pure ()) :
    Run Unit).run.run { s with tree := (s.tree.createDirAll dir).1 } = _
  cases (s.tree.createDirAll dir).2 <;> rfl

/-- Clearing touches the tree and no other part of the state. -/
theorem run_clear (s : RunState) (dir : String) :
    (Run.clear dir).run.run s =
      ((s.tree.clearing dir).1, { s with tree := (s.tree.clearing dir).2 }) := by
  unfold clearing
  by_cases hhas : s.tree.hasEntry dir = true
  · have hrun : (Run.clear dir).run.run s = (match s.tree.removeDirAll dir with
        | none => throw ⟨.clear, dir, .io⟩
        | some tree => modify (fun s => { s with tree }) >>= fun _ => makeDir dir :
          Run Unit).run.run s := by
      unfold Run.clear
      show (ite (s.tree.hasEntry dir = true) _ _ : Run Unit).run.run s = _
      rw [if_pos hhas]
      cases s.tree.removeDirAll dir <;> rfl
    rw [hrun, if_pos hhas]
    cases s.tree.removeDirAll dir with
    | none => rfl
    | some r => exact run_makeDir { s with tree := r } dir
  · have hrun : (Run.clear dir).run.run s = (makeDir dir).run.run s := by
      unfold Run.clear
      show (ite (s.tree.hasEntry dir = true) _ _ : Run Unit).run.run s = _
      rw [if_neg hhas]
      rfl
    rw [hrun, if_neg hhas]
    exact run_makeDir s dir

/-- Clearing succeeds with the tree that the closed form gives. -/
theorem clearing_eq_ok_iff : t.clearing dir = (.ok (), u) ↔ t.cleared? dir = some u := by
  unfold clearing cleared?
  cases if t.hasEntry dir then t.removeDirAll dir else some t with
  | none => simp
  | some r =>
    obtain ⟨v, made⟩ := r.createDirAll dir
    cases made <;> simp

theorem isEntryName_outputName : IsEntryName RunOptions.outputName :=
  ⟨by decide, by decide, by decide, by decide⟩

/-! ## The files of artifacts -/

/-- The files of artifacts below a place, in the order of their names. -/
def FileTree.candidatesAt (t : FileTree) (base : List String) : List FoundFile :=
  ((t.entries.filterMap (fileBelow? base)).filter isCandidate).mergeSort fun a b =>
    comesBefore a.way b.way

/-- The candidates of a path are those below the place that it leads to. -/
theorem candidates_eq (h : t.canonical? dir = some base) :
    candidates t dir = t.candidatesAt base := by
  unfold candidates filesUnder candidatesAt
  rw [h]
  dsimp only
  have hsort := filterMap_mergeSort (fun a b c => comesBefore_trans (FoundFile.way a) b.way c.way)
    (fun a b => comesBefore_total a.way b.way) (fun a b c => comesBefore_trans a.way b.way c.way)
    (fun a b => comesBefore_total a.way b.way) (f := Option.guard isCandidate)
    (fun a b a' b' ha hb => by rw [← (Option.guard_eq_some_iff.1 ha).1,
      ← (Option.guard_eq_some_iff.1 hb).1]) (t.entries.filterMap (fileBelow? base))
  rwa [List.filterMap_eq_filter] at hsort

theorem mem_fileBelow {place : List String} {x : FoundFile} {y : List String × Entry} :
    fileBelow? place y = some x ↔ y = (place ++ x.way, .file x.text) := by
  obtain ⟨p, e⟩ := y
  unfold fileBelow?
  cases e with
  | dir => simp
  | link target => simp
  | file text =>
    dsimp only
    split
    · next hprefix =>
      obtain ⟨way, rfl⟩ := List.isPrefixOf_iff_prefix.1 hprefix
      obtain ⟨way', text'⟩ := x
      simp
    · next hprefix =>
      refine iff_of_false (fun h => by cases h) fun h => ?_
      cases h
      exact hprefix (List.isPrefixOf_iff_prefix.2 (List.prefix_append _ _))

/-- **Which files are artifacts**: those below the place, the output directory left out, whose names
say so. -/
theorem FileTree.mem_candidatesAt {x : FoundFile} : x ∈ t.candidatesAt base ↔
    (base ++ x.way, .file x.text) ∈ t.entries ∧ isCandidate x = true := by
  unfold candidatesAt
  rw [List.mem_mergeSort, List.mem_filter, List.mem_filterMap]
  refine and_congr_left fun _ => ⟨?_, fun h => ⟨_, h, mem_fileBelow.2 rfl⟩⟩
  rintro ⟨y, hy, hx⟩
  rwa [mem_fileBelow.1 hx] at hy

/-- **What is in the output directory is no artifact.** -/
theorem candidatesAt_erase (t : FileTree) (base : List String) :
    (t.erase (base ++ [RunOptions.outputName])).candidatesAt base = t.candidatesAt base := by
  unfold candidatesAt erase
  dsimp only
  congr 1
  rw [← List.filterMap_eq_filter, List.filterMap_filterMap, List.filterMap_filterMap,
    List.filterMap_filter]
  refine List.filterMap_congr fun y _ => ?_
  split
  · rfl
  next hbelow =>
  have hbelow : base ++ [RunOptions.outputName] <+: y.1 := by
    simpa [List.isPrefixOf_iff_prefix] using hbelow
  cases hx : fileBelow? base y with
  | none => rfl
  | some x =>
    rw [mem_fileBelow.1 hx] at hbelow
    obtain ⟨more, hmore⟩ := hbelow
    -- What is taken away lies below the output directory, where no candidates are looked for.
    have hway : x.way = RunOptions.outputName :: more := by
      rw [List.append_assoc] at hmore
      exact (List.append_cancel_left hmore).symm
    symm
    rw [Option.bind_some, Option.guard_eq_none_iff]
    unfold isCandidate
    rw [hway]
    simp

/-- Trees that differ in the output directory alone have the same artifacts. -/
theorem candidatesAt_eq_of_erase_eq
    (h : u.erase (base ++ [RunOptions.outputName]) = t.erase (base ++ [RunOptions.outputName])) :
    u.candidatesAt base = t.candidatesAt base := by
  rw [← candidatesAt_erase u, h, candidatesAt_erase]

/-- Directories that are added hold no candidates. -/
theorem FileTree.AddsDirs.candidatesAt_eq (h : t.AddsDirs u) (base : List String) :
    u.candidatesAt base = t.candidatesAt base := by
  unfold candidatesAt
  rw [h.filterMap_eq fun place => rfl]

/-- **The artifacts are the same before and after clearing**, if something was taken away and the
path of their directory still leads to the same place, or if nothing was. -/
theorem candidates_cleared {o : RunOptions} (hu : t.cleared? o.outputDir = some u)
    (hbase : u.canonical? o.artifactDir = some base)
    (hsame : t.hasEntry o.outputDir = true → t.canonical? o.artifactDir = some base) :
    candidates u o.artifactDir = t.candidatesAt base := by
  obtain ⟨r, hr, hmade⟩ := cleared?_eq_some_iff.1 hu
  have hadds : r.AddsDirs u := by
    have hadds := addsDirs_createDirAll r o.outputDir
    rwa [hmade] at hadds
  rw [candidates_eq hbase, hadds.candidatesAt_eq]
  split at hr
  · next hhas =>
    obtain ⟨p, e, hp, -, -, rfl⟩ := removeDirAll_eq_some hr
    have hbase := hsame hhas
    have hdir : o.artifactDir ≠ "" := by
      intro he
      rw [he] at hbase
      cases hbase
    have hplace : (t.resolve false o.outputDir).place? = some p := by
      rw [hp]; rfl
    obtain ⟨base', hbase', rfl⟩ := place_of_resolve_join hdir isEntryName_outputName hplace
    unfold canonical? at hbase
    rw [hbase'] at hbase
    cases hbase
    exact candidatesAt_erase t _
  · cases hr; rfl

end TypedBindings
