import TypedBindings.Proofs.Files.Remaking
import TypedBindings.Proofs.Run.Clearing
import TypedBindings.Proofs.Run.Isolation
import TypedBindings.Proofs.Run.Leaving

/-!
# Running again

A second run right after a first one finds what the first one found: all that the first one wrote
stands directly in the output directory, which is cleared first. That fails only where clearing
again does something else than clearing did.

* `FileTree.IsWrittenIn`: a tree differs from another one by files in a directory.
* `clearing_again`: where clearing the output directory again changes nothing.
* `codegen_again_of_clearing_again`: there, running again changes nothing either.
* `codegen_again`: so it is if the path of the artifacts does not go up behind a name.
* `stale_file_survives`: it is not so for a path that does.
-/

namespace TypedBindings

open TypeScript FileTree

/-! ## Files in the output directory -/

/-- **A tree differs from another one by files in a directory.** The path of the directory leads to
it, and no link stands in it. -/
structure FileTree.IsWrittenIn (dir : String) (base : List String) (cleared t : FileTree) :
    Prop where
  elsewhere : t.erase base = cleared.erase base
  here : t.resolve false dir = .found base
  isDir : t.entry? base = some .dir
  noLinks : ∀ name target, t.entry? (base ++ [name]) ≠ some (.link target)

section

variable {c t u : FileTree} {dir : String} {base : List String}

theorem erase_set_below {place : List String} (h : base <+: place) (e : Entry) :
    (t.set place e).erase base = t.erase base := by
  have hkept : ∀ x : List String × Entry, (!base.isPrefixOf x.1) = true → x.1 ≠ place := by
    intro x hx hplace
    rw [hplace, List.isPrefixOf_iff_prefix.2 h] at hx
    cases hx
  have hnew : base.isPrefixOf place = true := List.isPrefixOf_iff_prefix.2 h
  unfold FileTree.set erase
  dsimp only
  rw [List.filter_append, List.filter_filter]
  simp only [List.filter_cons, hnew, Bool.not_true, Bool.false_eq_true, if_false, List.filter_nil,
    List.append_nil]
  congr 1
  refine List.filter_congr fun x _ => ?_
  by_cases hx : (!base.isPrefixOf x.1) = true
  · simp [hx, hkept x hx]
  · simp [hx]

theorem FileTree.IsWrittenIn.resolve_eq (h : IsWrittenIn dir base c t) :
    t.resolve true dir = .found base :=
  (Grows.refl t).isPartOf.resolve_eq_found h.isDir (fun h => by cases h) (by rw [h.here]; rfl)

/-- What a unit is written to stands directly in the output directory. -/
theorem keptByWrite_isWrittenIn {o : RunOptions} {u : SourceUnit} (hname : '/' ∉ u.name.toList) :
    KeptByWrite (IsWrittenIn o.outputDir base c) o.outputDir u := by
  intro t t' h hwrite
  obtain ⟨place, hplace, hfile, rfl⟩ := write_eq_some hwrite
  obtain ⟨base', hbase', hin⟩ := place?_join (Course.isDirPath_outputDir o)
    (Course.isEntryName_fileName hname) hplace
  cases h.resolve_eq.symm.trans hbase'
  have hat : place = base ++ [u.fileName] := hin (h.noLinks u.fileName)
  subst hat
  have hne : base ≠ base ++ [u.fileName] := by simp
  refine ⟨?_, ?_, ?_, ?_⟩
  · rw [erase_set_below (List.prefix_append _ _)]
    exact h.elsewhere
  · rcases (agreesOff_set hfile (some u.render)).resolve false o.outputDir with hsame | ⟨hold, -⟩
    · rw [hsame]
      exact h.here
    · rw [h.here] at hold
      exact absurd (Option.some.inj hold) hne
  · rw [entry?_set hfile.ne_nil, if_neg hne]
    exact h.isDir
  · intro name target
    rw [entry?_set hfile.ne_nil]
    split
    · exact fun he => by cases he
    · exact h.noLinks name target

/-- An output directory that clearing leaves as it is has nothing but directories in it. -/
theorem isWrittenIn_of_cleared (hdir : dir ≠ "") (h : c.cleared? dir = some c) :
    ∃ base, IsWrittenIn dir base c c := by
  obtain ⟨r, hr, hmade⟩ := cleared?_eq_some_iff.1 h
  have hthere : c.isDir dir = true := isDir_of_createDirs hdir hmade
  rw [if_pos (hasEntry_of_isDir hthere)] at hr
  obtain ⟨base, e, hbase, he, hfile, rfl⟩ := removeDirAll_eq_some hr
  have hadds : (c.erase base).AddsDirs c := by
    have hadds := addsDirs_createDirAll (c.erase base) dir
    rwa [hmade] at hadds
  -- Everything in the directory was taken away and came back, and only directories come back.
  have hdirs : ∀ x ∈ c.entries, base <+: x.1 → x.2 = .dir := by
    intro x hx hbelow
    obtain ⟨-, more, hmore, hdirs⟩ := hadds
    rw [hmore] at hx
    rcases List.mem_append.1 hx with hx | hx
    · have hnot := (List.mem_filter.1 hx).2
      rw [List.isPrefixOf_iff_prefix.2 hbelow] at hnot
      cases hnot
    · exact hdirs x hx
  refine ⟨base, rfl, hbase, ?_, fun name target hlink => ?_⟩
  · by_cases hne : base = []
    · rw [hne]; rfl
    · have hedir : e = .dir := hdirs _ (mem_of_entry_eq_some he hne) List.prefix_rfl
      rw [he, hedir]
  · have hdir := hdirs _ (mem_of_entry_eq_some hlink (by simp)) (List.prefix_append _ _)
    cases hdir

/-- The output directory is cleared as it was before the files were written. -/
theorem FileTree.IsWrittenIn.clearing_eq (h : IsWrittenIn dir base c t)
    (hc : c.cleared? dir = some c) (hcc : IsWrittenIn dir base c c) :
    t.clearing dir = (.ok (), c) := by
  have hhas : ∀ s : FileTree, IsWrittenIn dir base c s →
      (if s.hasEntry dir then s.removeDirAll dir else some s) = some (c.erase base) := by
    intro s hs
    have hdir : s.isDir dir = true := isDir_iff.2 ⟨base, hs.resolve_eq, hs.isDir⟩
    rw [if_pos (hasEntry_of_isDir hdir)]
    unfold removeDirAll
    rw [hs.here]
    dsimp only
    rw [hs.isDir]
    exact congrArg some hs.elsewhere
  obtain ⟨r, hr, hmade⟩ := cleared?_eq_some_iff.1 hc
  rw [clearing_eq_ok_iff, cleared?_eq_some_iff]
  exact ⟨c.erase base, hhas t h, by rw [hhas c hcc] at hr; cases hr; exact hmade⟩

end

/-! ## Clearing twice -/

section

variable {t u : FileTree} {dir : String}

theorem clearing_of_not_hasEntry (h : t.hasEntry dir = false) : t.clearing dir =
    (if (t.createDirAll dir).2 then .ok () else .error ⟨.create, dir, .io⟩,
      (t.createDirAll dir).1) := by
  unfold clearing
  rw [h]
  rfl

/-- A directory that was made where nothing stood is cleared and made again. -/
theorem FileTree.IsTree.clearing_set (ht : t.IsTree) {p : List String}
    (hp : t.resolve false dir = .vacant p) :
    (t.set p .dir).clearing dir = (.ok (), t.set p .dir) := by
  have hnone := entry?_of_vacant hp
  have hentry := entry?_set_vacant hp .dir
  have hthere : hasEntry (t.set p .dir) dir = true :=
    hasEntry_of_isDir (isDir_iff.2 ⟨p, resolve_set_dir hp true, hentry⟩)
  have hremove : removeDirAll (t.set p .dir) dir = some t := by
    unfold removeDirAll
    rw [resolve_set_dir hp false]
    dsimp only
    rw [hentry]
    exact congrArg some ((erase_set_below List.prefix_rfl _).trans (ht.erase_eq hnone))
  have hmade : t.createDirAll dir = (t.set p .dir, true) := by
    have hensure : t.ensureDir dir = (t.set p .dir, true) := by
      unfold ensureDir createDir
      rw [hp]
    have hpath : dir ≠ "" := by
      rintro rfl
      cases hp
    exact createDirs_of_ensureDir hpath hensure _
  rw [clearing_eq_ok_iff, cleared?_eq_some_iff]
  exact ⟨t, by rw [if_pos hthere, hremove], hmade⟩

/-- Where nothing was, a steady path's directory is cleared as it was made. -/
theorem FileTree.IsSteady.clearing_again (ht : t.IsTree) (h : t.IsSteady dir) {last : String}
    (hend : (Path.names dir).getLast? = some last) (hname : IsEntryName last)
    (hslash : Path.endsInSlash dir = false) (hno : t.hasEntry dir = false) :
    (t.clearing dir).2.clearing dir = t.clearing dir := by
  have hpath : dir ≠ "" := by
    rintro rfl
    cases hend
  have hclear := clearing_of_not_hasEntry hno
  cases hu : t.createDirAll dir with
  | mk u made =>
    rw [hu] at hclear
    rw [hclear]
    cases made with
    | true =>
      obtain ⟨s, p, hs, hp, rfl⟩ := h.exists_vacant ht hpath hno hu
      exact hs.clearing_set hp
    | false =>
      have hnone := h.hasEntry_eq_false ht hend hname hslash hno hu
      have hagain : u.createDirAll dir = (u, false) := (createDirs_again ht hu).2
      rw [clearing_of_not_hasEntry hnone, hagain]

end

variable {t : FileTree} {o : RunOptions}

theorem outputDir_eq_of_empty (h : o.artifactDir = "") : o.outputDir = RunOptions.outputName := by
  unfold RunOptions.outputDir
  rw [h]
  rfl

theorem names_outputDir (o : RunOptions) :
    (Path.names o.outputDir).getLast? = some RunOptions.outputName := by
  by_cases hdir : o.artifactDir = ""
  · rw [outputDir_eq_of_empty hdir]
    rfl
  · unfold RunOptions.outputDir
    rw [Path.names_join hdir isEntryName_outputName, List.getLast?_concat]

theorem ne_nil_of_resolve_outputDir {p : List String} (h : t.resolve false o.outputDir = .found p) :
    p ≠ [] := by
  have hplace : (t.resolve false o.outputDir).place? = some p := by
    rw [h]; rfl
  by_cases hdir : o.artifactDir = ""
  · rw [outputDir_eq_of_empty hdir] at hplace
    have hwalk : (t.walk false linkLimit t.workDir ([] ++ [RunOptions.outputName])).place? =
        some p := hplace
    have hnone : ∀ d ∈ ([] : List String), d = "." := fun _ h => absurd h List.not_mem_nil
    obtain ⟨base, -, rfl⟩ := place_of_walk_last isEntryName_outputName hnone linkLimit hwalk
    simp
  · obtain ⟨base, -, rfl⟩ := place_of_resolve_join hdir isEntryName_outputName hplace
    simp

theorem isSteady_outputDir (h : Path.GoesUpFirst o.artifactDir ∨ t.isDir o.artifactDir = true) :
    t.IsSteady o.outputDir := by
  by_cases hdir : o.artifactDir = ""
  · rw [outputDir_eq_of_empty hdir]
    exact Or.inl (by decide)
  · exact isSteady_join isEntryName_outputName (by decide) hdir h

/-- **Clearing the output directory twice** is clearing it once, unless its path goes up behind a
name and is not there: what is made on the way of such a path can lead to something else. -/
theorem clearing_again (ht : t.IsTree)
    (hwork : entry? (t.remove o.outputDir) t.workDir = some .dir)
    (hway : Path.GoesUpFirst o.artifactDir ∨
      isDir (t.remove o.outputDir) o.artifactDir = true) :
    (t.clearing o.outputDir).2.clearing o.outputDir = t.clearing o.outputDir := by
  have hagain : ∀ r : FileTree, r.IsTree → r.hasEntry o.outputDir = false →
      (Path.GoesUpFirst o.artifactDir ∨ r.isDir o.artifactDir = true) →
        t.clearing o.outputDir = r.clearing o.outputDir →
          (t.clearing o.outputDir).2.clearing o.outputDir = t.clearing o.outputDir := by
    intro r hr hno hway hsame
    rw [hsame]
    exact (isSteady_outputDir hway).clearing_again hr (names_outputDir o) isEntryName_outputName
      (Course.isDirPath_outputDir o).no_slash hno
  -- `r` above is the tree without the output directory, from which it is made again.
  by_cases hhas : t.hasEntry o.outputDir = true
  · cases hr : t.removeDirAll o.outputDir with
    | none =>
      -- What stands there is no directory, so either run ends here and changes nothing.
      have hclear : t.clearing o.outputDir = (.error ⟨.clear, o.outputDir, .io⟩, t) := by
        unfold clearing
        rw [if_pos hhas, hr]
      rw [hclear, hclear]
    | some r =>
      obtain ⟨p, e, hp, -, -, rfl⟩ := removeDirAll_eq_some hr
      have hne := ne_nil_of_resolve_outputDir hp
      have hremove : t.remove o.outputDir = t.erase p := by
        unfold remove
        rw [hp]
      rw [hremove] at hwork hway
      have hno := hasEntry_erase hp hne
      refine hagain _ (ht.erase fun hbelow => ?_) hno hway ?_
      · rw [entry?_erase hne, if_pos hbelow] at hwork
        cases hwork
      · rw [clearing_of_not_hasEntry hno]
        unfold clearing
        rw [if_pos hhas, hr]
  · refine hagain t ht (by simpa using hhas) (hway.imp_right fun hdir => ?_) rfl
    have hpart : (t.remove o.outputDir).IsPartOf t := by
      unfold remove
      cases hp : t.resolve false o.outputDir with
      | found p => exact isPartOf_erase (ne_nil_of_resolve_outputDir hp)
      | vacant p => exact (Grows.refl t).isPartOf
      | nowhere => exact (Grows.refl t).isPartOf
    exact hpart.isDir hdir

/-! ## Two runs -/

/-- The contracts that the files of a tree hold. -/
def FileTree.contracts (t : FileTree) : List Artifact.Contract :=
  t.entries.filterMap fun x =>
    match x.2 with
    | .file (some text) =>
      match Artifact.ofText text with
      | .ok (.contract a) => some a
      | _ => none
    | _ => none

/-- The contracts in the files of a tree have names without slashes. -/
def FileTree.HasPlainContracts (t : FileTree) : Prop := ∀ a ∈ t.contracts, '/' ∉ a.name.toList

instance (t : FileTree) : Decidable t.HasPlainContracts :=
  inferInstanceAs (Decidable (∀ a ∈ t.contracts, _))

theorem FileTree.mem_contracts {t : FileTree} {a : Artifact.Contract} : a ∈ t.contracts ↔
    ∃ place text, (place, Entry.file (some text)) ∈ t.entries ∧
      Artifact.ofText text = .ok (.contract a) := by
  unfold contracts
  rw [List.mem_filterMap]
  constructor
  · rintro ⟨⟨place, e⟩, hmem, ha⟩
    dsimp only at ha
    split at ha
    · next e text =>
      split at ha
      · next found hfound => cases ha; exact ⟨place, text, hmem, hfound⟩
      · cases ha
    · cases ha
  · rintro ⟨place, text, hmem, hfound⟩
    exact ⟨_, hmem, by dsimp only; rw [hfound]⟩

/-- Clearing brings no file. -/
theorem mem_of_clearing {t : FileTree} {dir : String} {place : List String} {text : Option String}
    (h : (place, Entry.file text) ∈ (t.clearing dir).2.entries) :
    (place, Entry.file text) ∈ t.entries := by
  have hmade : ∀ r : FileTree, (place, Entry.file text) ∈ (r.createDirAll dir).1.entries →
      (place, Entry.file text) ∈ r.entries := fun r => (addsDirs_createDirAll r dir).mem_of_file
  unfold clearing at h
  by_cases hhas : t.hasEntry dir = true
  · rw [if_pos hhas] at h
    cases hr : t.removeDirAll dir with
    | none => rw [hr] at h; exact h
    | some r =>
      rw [hr] at h
      obtain ⟨p, e, -, -, -, rfl⟩ := removeDirAll_eq_some hr
      exact (List.mem_filter.1 (hmade _ h)).1
  · rw [if_neg hhas] at h
    exact hmade t h

theorem exists_mem_of_mem_candidates {t : FileTree} {dir : String} {x : FoundFile}
    (hx : x ∈ candidates t dir) : ∃ place, (place, Entry.file x.text) ∈ t.entries := by
  cases hbase : t.canonical? dir with
  | none =>
    unfold candidates filesUnder at hx
    rw [hbase] at hx
    exact absurd hx List.not_mem_nil
  | some base =>
    rw [candidates_eq hbase] at hx
    exact ⟨_, (mem_candidatesAt.1 hx).1⟩

/-- The contracts that are found have the names that the files of the tree have. -/
theorem FileTree.HasPlainContracts.discovery {t : FileTree} (h : t.HasPlainContracts) {dir : String}
    {f : FoundArtifact} (hf : f ∈ (t.discovery dir).artifacts) {a : Artifact.Contract}
    (ha : f.artifact = .contract a) : '/' ∉ a.name.toList := by
  unfold FileTree.discovery at hf
  rw [Discovery.artifacts_ofFiles, Discovery.sort, List.mem_mergeSort] at hf
  obtain ⟨x, hx, hread⟩ := List.mem_filterMap.1 hf
  obtain ⟨place, hplace⟩ := exists_mem_of_mem_candidates hx
  unfold FoundFile.artifact? readArtifact at hread
  cases htext : x.text with
  | none => rw [htext] at hread; cases hread
  | some text =>
    rw [htext] at hread hplace
    dsimp only at hread
    cases hartifact : Artifact.ofText text with
    | error fault => rw [hartifact] at hread; cases hread
    | ok found =>
      rw [hartifact] at hread
      cases hread
      exact h a (mem_contracts.2 ⟨place, text, hplace, hartifact.trans (congrArg Except.ok ha)⟩)

/-- A run clears the output directory first, and ends if it cannot. -/
theorem run_codegen (o : RunOptions) (s : RunState) :
    (codegen o).run.run s =
      match (s.tree.clearing o.outputDir).1 with
      | .error fault => (.error fault, { s with tree := (s.tree.clearing o.outputDir).2 })
      | .ok () => (afterClearing o).run.run { s with tree := (s.tree.clearing o.outputDir).2 } := by
  have hrun : (codegen o).run.run s =
      StateT.run (ExceptT.bindCont (fun _ => afterClearing o)
        ((Run.clear o.outputDir).run.run s).1) ((Run.clear o.outputDir).run.run s).2 := by
    rw [codegen_eq_clear]
    rfl
  rw [hrun, run_clear]
  cases (s.tree.clearing o.outputDir).1 <;> rfl

theorem FileTree.HasPlainContracts.clearing {t : FileTree} (h : t.HasPlainContracts)
    (dir : String) : (t.clearing dir).2.HasPlainContracts := by
  intro a ha
  obtain ⟨place, text, hfile, hread⟩ := mem_contracts.1 ha
  exact h a (mem_contracts.2 ⟨place, text, mem_of_clearing hfile, hread⟩)

section

variable {o : RunOptions} {t : FileTree}

/-- What a run leaves is what clearing leaves, and files in the output directory if it is clear. -/
theorem tree_codegen (hnames : t.HasPlainContracts)
    (hclear : (t.clearing o.outputDir).2.clearing o.outputDir = t.clearing o.outputDir) :
    ((codegen o).outcome t).tree = (t.clearing o.outputDir).2 ∨
      t.clearing o.outputDir = (.ok (), (t.clearing o.outputDir).2) ∧
        ∃ base, IsWrittenIn o.outputDir base (t.clearing o.outputDir).2
            (t.clearing o.outputDir).2 ∧
          IsWrittenIn o.outputDir base (t.clearing o.outputDir).2 ((codegen o).outcome t).tree := by
  have htree : ((codegen o).outcome t).tree = ((codegen o).run.run { tree := t }).2.tree := rfl
  rw [htree, run_codegen]
  cases hresult : (t.clearing o.outputDir).1 with
  | error fault => exact Or.inl rfl
  | ok r =>
    have hok : t.clearing o.outputDir = (.ok (), (t.clearing o.outputDir).2) := by
      rw [← hresult]
    obtain ⟨base, hbase⟩ := isWrittenIn_of_cleared (Course.isDirPath_outputDir o).ne_empty
      (clearing_eq_ok_iff.1 (hclear.trans hok))
    have hwritten : (afterClearing o).Leaves
        (IsWrittenIn o.outputDir base (t.clearing o.outputDir).2)
        { tree := (t.clearing o.outputDir).2 } :=
      leaves_afterClearing (fun u hname => keptByWrite_isWrittenIn hname)
        (fun f hf a ha => (hnames.clearing o.outputDir).discovery hf ha) hbase
    exact Or.inr ⟨hok, base, hbase, hwritten⟩

/-- If clearing again changes nothing, running again changes nothing. -/
theorem codegen_again_of_clearing_again (hnames : t.HasPlainContracts)
    (hclear : (t.clearing o.outputDir).2.clearing o.outputDir = t.clearing o.outputDir) :
    (codegen o).outcome ((codegen o).outcome t).tree = (codegen o).outcome t := by
  have hsecond : ∀ f : FileTree, f.clearing o.outputDir = t.clearing o.outputDir →
      (codegen o).outcome f = (codegen o).outcome t := by
    intro f hf
    have hrun : (codegen o).run.run { tree := f } = (codegen o).run.run { tree := t } := by
      rw [run_codegen, run_codegen, hf]
    unfold Run.outcome
    rw [hrun]
  refine hsecond _ ?_
  rcases tree_codegen hnames hclear with htree | ⟨hok, base, hbase, hwritten⟩
  · rw [htree, hclear]
  · rw [hwritten.clearing_eq (clearing_eq_ok_iff.1 (hclear.trans hok)) hbase, ← hok]

/-- What is written to the output directory is not found as an artifact. -/
theorem FileTree.IsWrittenIn.candidates_eq {base : List String} {c : FileTree}
    (hc : IsWrittenIn o.outputDir base c c) (h : IsWrittenIn o.outputDir base c t) :
    candidates t o.artifactDir = candidates c o.artifactDir := by
  by_cases hdir : o.artifactDir = ""
  · rw [hdir]
    rfl
  have hplace : ∀ s : FileTree, IsWrittenIn o.outputDir base c s →
      ∃ b, s.canonical? o.artifactDir = some b ∧ base = b ++ [RunOptions.outputName] := by
    intro s hs
    have hfound : (s.resolve false o.outputDir).place? = some base := by
      rw [hs.here]; rfl
    obtain ⟨b, hb, hbase⟩ := place_of_resolve_join hdir isEntryName_outputName hfound
    refine ⟨b, ?_, hbase⟩
    unfold canonical?
    rw [hb]
  obtain ⟨b, hb, rfl⟩ := hplace c hc
  obtain ⟨b', hb', hsame⟩ := hplace t h
  have hsame : b' = b := (List.append_inj_left' hsame rfl).symm
  rw [hsame] at hb'
  rw [TypedBindings.candidates_eq hb, TypedBindings.candidates_eq hb']
  exact candidatesAt_eq_of_erase_eq h.elsewhere

/-- **Running again changes nothing**, and the second run finds the artifacts that the first one
found, if the path of the artifacts does not go up behind a name, or is there even without the
output directory. -/
theorem codegen_again (ht : t.IsTree) (hnames : t.HasPlainContracts)
    (hwork : entry? (t.remove o.outputDir) t.workDir = some .dir)
    (hway : Path.GoesUpFirst o.artifactDir ∨
      isDir (t.remove o.outputDir) o.artifactDir = true) :
    (codegen o).outcome ((codegen o).outcome t).tree = (codegen o).outcome t ∧
      candidates ((codegen o).outcome t).tree o.artifactDir =
        candidates (t.clearing o.outputDir).2 o.artifactDir := by
  have hclear := clearing_again ht hwork hway
  refine ⟨codegen_again_of_clearing_again hnames hclear, ?_⟩
  rcases tree_codegen hnames hclear with htree | ⟨-, base, hbase, hwritten⟩
  · rw [htree]
  · exact hbase.candidates_eq hwritten

end

/-- An artifact, and an output directory with a file of an earlier run in it. -/
def usedTree : FileTree where
  entries :=
    [(["work"], .dir), (["work", "artifacts"], .dir),
      (["work", "artifacts", ".project.json"], .file (some oneInfoText)),
      (["work", "artifacts", "A.ral.json"], .file (some emptyContractText)),
      (["work", "artifacts", "ts"], .dir),
      (["work", "artifacts", "ts", "Stale.ts"], .file (some "stale"))]
  workDir := ["work"]

def usedOptions : RunOptions := ⟨"./artifacts", ".", false, []⟩

theorem codegen_again_used :
    (codegen usedOptions).outcome ((codegen usedOptions).outcome usedTree).tree =
        (codegen usedOptions).outcome usedTree ∧
      candidates ((codegen usedOptions).outcome usedTree).tree usedOptions.artifactDir =
        candidates (usedTree.clearing usedOptions.outputDir).2 usedOptions.artifactDir :=
  codegen_again (by decide) (by decide +kernel) (by decide) (Or.inl (by decide))

/-! ### A path that goes up behind a name -/

/-- A used output directory, without a project file. -/
def staleTree : FileTree where
  entries :=
    [(["work"], .dir), (["work", "artifacts"], .dir), (["work", "artifacts", "ts"], .dir),
      (["work", "artifacts", "ts", "Stale.ts"], .file (some "stale"))]
  workDir := ["work"]

/-- The artifacts by a path that leads nowhere until a directory is made on its way. -/
def windingOptions : RunOptions := ⟨"./new/../artifacts", ".", false, []⟩

/-- **The first run does not clear the output directory, the second one does.** -/
theorem stale_file_survives : staleTree.IsTree ∧ staleTree.HasPlainContracts ∧
    ∃ first second, (codegen windingOptions).outcome staleTree = first ∧
      (codegen windingOptions).outcome first.tree = second ∧
      first.tree.readText "artifacts/ts/Stale.ts" = some "stale" ∧
      second.tree.readText "artifacts/ts/Stale.ts" = none :=
  ⟨by decide, by decide, _, _, rfl, rfl, by decide +kernel, by decide +kernel⟩

end TypedBindings
