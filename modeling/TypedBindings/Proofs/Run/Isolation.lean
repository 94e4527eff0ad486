import TypedBindings.Proofs.Deployment.Directory
import TypedBindings.Proofs.Files.OneMoreFile
import TypedBindings.Proofs.Run.OneWriter

/-!
# A failing artifact leaves the others alone

Two runs, the second one on the tree of the first with one more artifact in it that has no binding.
Wherever that shows (its file cannot be read, its contract or its script cannot be bound), the
second run writes the units of the first and reports one failure more.

* `FoundFile.failure?`: why a file has no binding.
* `Discovery.HasFurther`: what is found in the two runs differs by one failure.
* `IsFurtherArtifact`: a further artifact, in no other file's place.
* `failing_artifact_isolated`: the two runs.
-/

namespace TypedBindings

open TypeScript FileTree

/-! ## Why a binding is missing -/

/-- Why a file below the directory of artifacts cannot be read. -/
def FileTree.FoundFile.unreadable? (dir : String) (x : FoundFile) : Option UnitFailure :=
  match readArtifact dir x with
  | .ok _ => none
  | .error fault => some ⟨x.path, .file fault⟩

/-- The artifact in a file below the directory of artifacts. -/
def FileTree.FoundFile.artifact? (dir : String) (x : FoundFile) : Option FoundArtifact :=
  (readArtifact dir x).toOption.map fun a => ⟨x.path, a⟩

/-- Why the contract of an artifact has no binding. -/
def FoundArtifact.contractFailure? (p : Project) (a : FoundArtifact) : Option UnitFailure :=
  match a.artifact with
  | .script _ => none
  | .contract c =>
    match bindContract p c a.path with
    | .ok _ => none
    | .error fault => some ⟨c.name, .binding fault⟩

/-- Why the script of an artifact has no binding. -/
def FoundArtifact.scriptFailure? (a : FoundArtifact) : Option UnitFailure :=
  match a.artifact with
  | .contract _ => none
  | .script s =>
    match bindScript s with
    | .ok _ => none
    | .error fault => some ⟨s.name, .binding fault⟩

/-- Why a file below the directory of artifacts has no binding. -/
def FileTree.FoundFile.failure? (p : Project) (dir : String) (x : FoundFile) :
    Option UnitFailure :=
  (x.unreadable? dir).or ((x.artifact? dir).bind fun a => (a.contractFailure? p).or a.scriptFailure?)

variable {p : Project} {f : UnitFailure} {dir : String}

/-- There is no artifact in a file that cannot be read. -/
theorem artifact?_of_unreadable? {x : FoundFile} (h : x.unreadable? dir = some f) :
    x.artifact? dir = none := by
  unfold FoundFile.unreadable? at h
  unfold FoundFile.artifact?
  cases hr : readArtifact dir x with
  | ok a => rw [hr] at h; cases h
  | error fault => rfl

theorem failures_contractActions (p : Project) (a : FoundArtifact) :
    (contractActions p a).filterMap Action.failure? = (a.contractFailure? p).toList := by
  unfold contractActions FoundArtifact.contractFailure?
  cases a.artifact with
  | script s => rfl
  | contract c =>
    dsimp only
    cases bindContract p c a.path <;> rfl

theorem failures_scriptActions (a : FoundArtifact) :
    (scriptActions a).filterMap Action.failure? = a.scriptFailure?.toList := by
  unfold scriptActions FoundArtifact.scriptFailure?
  cases a.artifact with
  | contract c => rfl
  | script s =>
    dsimp only
    cases bindScript s <;> rfl

/-- An artifact whose contract has no binding adds nothing to any unit. -/
theorem silent_of_contractFailure? {a : FoundArtifact} (h : a.contractFailure? p = some f) :
    boundUnit? p a = none ∧ boundContract? p a = none ∧ boundScript? a = none ∧
      a.scriptFailure? = none := by
  unfold FoundArtifact.contractFailure? at h
  unfold boundUnit? boundContract? boundScript? FoundArtifact.scriptFailure?
  cases ha : a.artifact with
  | script s => rw [ha] at h; cases h
  | contract c =>
    rw [ha] at h
    dsimp only at h ⊢
    cases hbind : bindContract p c a.path with
    | ok u => rw [hbind] at h; cases h
    | error fault => exact ⟨rfl, rfl, rfl, rfl⟩

/-- An artifact whose script has no binding adds nothing to any unit. -/
theorem silent_of_scriptFailure? {a : FoundArtifact} (h : a.scriptFailure? = some f) :
    boundUnit? p a = none ∧ boundContract? p a = none ∧ boundScript? a = none ∧
      a.contractFailure? p = none := by
  unfold FoundArtifact.scriptFailure? at h
  unfold boundUnit? boundContract? boundScript? FoundArtifact.contractFailure?
  cases ha : a.artifact with
  | contract c => rw [ha] at h; cases h
  | script s =>
    rw [ha] at h
    dsimp only at h ⊢
    cases hbind : bindScript s with
    | ok abi => rw [hbind] at h; cases h
    | error fault => exact ⟨rfl, rfl, rfl, rfl⟩

/-! ## What is found -/

theorem Inserted.sort {a : FoundArtifact} {as as' : List FoundArtifact} (h : Inserted a as as') :
    Inserted a (Discovery.sort as) (Discovery.sort as') := by
  refine h.mergeSort (fun x y z hxy hyz => ?_) fun x y => ?_
  · exact decide_eq_true (String.le_trans (of_decide_eq_true hxy) (of_decide_eq_true hyz))
  · rw [Bool.or_eq_true, decide_eq_true_iff, decide_eq_true_iff]
    exact String.le_total _ _

namespace Discovery

theorem foldr_add (dir : String) (files : List FoundFile) :
    files.foldr (add dir) ⟨[], []⟩ =
      ⟨files.filterMap (FoundFile.artifact? dir), files.filterMap (FoundFile.unreadable? dir)⟩ := by
  induction files with
  | nil => rfl
  | cons x rest ih =>
    rw [List.foldr_cons, ih, List.filterMap_cons, List.filterMap_cons]
    unfold add FoundFile.artifact? FoundFile.unreadable?
    cases readArtifact dir x <;> rfl

theorem artifacts_ofFiles (dir : String) (files : List FoundFile) :
    (ofFiles dir files).artifacts = sort (files.filterMap (FoundFile.artifact? dir)) := by
  unfold ofFiles
  rw [foldr_add]

theorem failures_ofFiles (dir : String) (files : List FoundFile) :
    (ofFiles dir files).failures = files.filterMap (FoundFile.unreadable? dir) := by
  unfold ofFiles
  rw [foldr_add]

/-- Everything that is reported for what was found. -/
def allFailures (p : Project) (d : Discovery) : List UnitFailure :=
  d.failures ++ d.artifacts.filterMap (FoundArtifact.contractFailure? p) ++
    d.artifacts.filterMap FoundArtifact.scriptFailure?

/-- **What is found differs by one failure**: there is nothing else to write. -/
structure HasFurther (p : Project) (f : UnitFailure) (d d' : Discovery) : Prop where
  units : d'.artifacts.filterMap (boundUnit? p) = d.artifacts.filterMap (boundUnit? p)
  contracts : d'.artifacts.filterMap (boundContract? p) = d.artifacts.filterMap (boundContract? p)
  scripts : d'.artifacts.filterMap boundScript? = d.artifacts.filterMap boundScript?
  failures : Inserted f (d.allFailures p) (d'.allFailures p)

/-- A file without a binding is one failure more, wherever that shows. -/
theorem hasFurther_ofFiles {x : FoundFile} {files files' : List FoundFile}
    (h : Inserted x files files') (hx : x.failure? p dir = some f) :
    HasFurther p f (ofFiles dir files) (ofFiles dir files') := by
  have hartifacts := artifacts_ofFiles dir
  have hfailures := failures_ofFiles dir
  unfold FoundFile.failure? at hx
  rcases Option.or_eq_some_iff.1 hx with hfile | ⟨hfile, hbinding⟩
  · -- The file cannot be read: the artifacts are those that were there before.
    have hsame : (ofFiles dir files').artifacts = (ofFiles dir files).artifacts := by
      rw [hartifacts, hartifacts, h.filterMap_eq (artifact?_of_unreadable? hfile)]
    refine ⟨by rw [hsame], by rw [hsame], by rw [hsame], ?_⟩
    unfold allFailures
    rw [hsame, hfailures, hfailures]
    exact ((h.filterMap hfile).append_right _).append_right _
  · obtain ⟨a, ha, hbinding⟩ := Option.bind_eq_some_iff.1 hbinding
    have hread : (ofFiles dir files').failures = (ofFiles dir files).failures := by
      rw [hfailures, hfailures, h.filterMap_eq hfile]
    have hinserted : Inserted a (ofFiles dir files).artifacts (ofFiles dir files').artifacts := by
      rw [hartifacts, hartifacts]
      exact (h.filterMap ha).sort
    rcases Option.or_eq_some_iff.1 hbinding with hcontract | ⟨-, hscript⟩
    · obtain ⟨hunit, hname, habi, hother⟩ := silent_of_contractFailure? hcontract
      refine ⟨hinserted.filterMap_eq hunit, hinserted.filterMap_eq hname,
        hinserted.filterMap_eq habi, ?_⟩
      unfold allFailures
      rw [hread, hinserted.filterMap_eq hother]
      exact ((hinserted.filterMap hcontract).append_left _).append_right _
    · obtain ⟨hunit, hname, habi, hother⟩ := silent_of_scriptFailure? (p := p) hscript
      refine ⟨hinserted.filterMap_eq hunit, hinserted.filterMap_eq hname,
        hinserted.filterMap_eq habi, ?_⟩
      unfold allFailures
      rw [hread, hinserted.filterMap_eq hother]
      exact (hinserted.filterMap hscript).append_left _

end Discovery

/-! ## The steps of the two runs -/

section Steps

variable {t t' u u' : FileTree} {place : List String} {text : Option String}

/-- The output directory is cleared in both trees alike. -/
theorem FileTree.AddsFile.cleared? (h : AddsFile place text t t') (hu : t.cleared? dir = some u)
    (houtside : ∀ q, (t.resolve false dir).place? = some q → ¬ q <+: place)
    (hfree : u.IsFree place) {base : List String} (hbase : u.resolve true dir = .found base) :
    ∃ u', t'.cleared? dir = some u' ∧ AddsFile place text u u' := by
  have hcreate : ∀ {s s' : FileTree}, AddsFile place text s s' →
      (if (s.createDirAll dir).2 then some (s.createDirAll dir).1 else none) = some u →
      ∃ u', (if (s'.createDirAll dir).2 then some (s'.createDirAll dir).1 else none) = some u' ∧
        AddsFile place text u u' := by
    intro s s' hs hmade
    split at hmade
    · next hthere =>
      cases hmade
      obtain ⟨hadds, hsame⟩ := hs.createDirs hfree
      exact ⟨_, if_pos (hsame.trans hthere), hadds⟩
    · cases hmade
  unfold FileTree.cleared? at hu ⊢
  by_cases hhas : t.hasEntry dir = true
  · rw [if_pos hhas] at hu
    obtain ⟨e, he⟩ := Option.isSome_iff_exists.1 hhas
    have hhas' : t'.hasEntry dir = true := by
      unfold hasEntry
      rw [h.agreesOff.lookup_eq (h.free.place?_ne he)]
      exact hhas
    rw [if_pos hhas']
    obtain ⟨s, hremoved, hu⟩ := Option.bind_eq_some_iff.1 hu
    -- What is taken away is at another place than the file, and not above it.
    have hresolve : t'.resolve false dir = t.resolve false dir :=
      (h.agreesOff.resolve false dir).resolve_right fun hboth =>
        houtside place hboth.1 List.prefix_rfl
    have hadds : ∃ s', t'.removeDirAll dir = some s' ∧ AddsFile place text s s' := by
      unfold removeDirAll at hremoved ⊢
      rw [hresolve]
      cases hr : t.resolve false dir with
      | found q =>
        have hq : ¬ q <+: place := houtside q (by rw [hr]; rfl)
        have hne : q ≠ place := fun he => hq (he ▸ List.prefix_rfl)
        rw [hr] at hremoved
        dsimp only at hremoved ⊢
        rw [h.entry?_eq, if_neg hne]
        cases hentry : t.entry? q with
        | none => rw [hentry] at hremoved; cases hremoved
        | some e =>
          rw [hentry] at hremoved
          cases e with
          | file old => cases hremoved
          | dir => cases hremoved; exact ⟨_, rfl, h.erase hq⟩
          | link target => cases hremoved; exact ⟨_, rfl, h.erase hq⟩
      | vacant q => rw [hr] at hremoved; cases hremoved
      | nowhere => rw [hr] at hremoved; cases hremoved
    obtain ⟨s', hremoved', hadds⟩ := hadds
    obtain ⟨u', hu', hadds⟩ := hcreate hadds hu
    exact ⟨u', by rw [hremoved']; exact hu', hadds⟩
  · rw [if_neg hhas] at hu
    -- The directory does not come to stand where the file is: that place stays free.
    have hdir : t.place? dir ≠ some place := by
      intro hplace
      have hgrows : t.Grows u := by
        rw [Option.bind_some] at hu
        split at hu
        · cases hu; exact grows_createDirs _ dir t
        · cases hu
      have hvacant := hgrows.resolve_eq_vacant hfree.entry?_eq_none (h.free.resolve_eq_vacant hplace)
      rw [hbase] at hvacant
      cases hvacant
    have hhas' : ¬ t'.hasEntry dir = true := by
      unfold hasEntry
      rw [h.agreesOff.lookup_eq hdir]
      exact hhas
    rw [if_neg hhas']
    exact hcreate h hu

/-- The project is the same. -/
theorem FileTree.AddsFile.project? (h : AddsFile place text u u') (hp : u.project? dir = some p) :
    u'.project? dir = some p := by
  unfold FileTree.project? at hp ⊢
  have hread : u'.readText (Path.join dir Project.fileName) =
      u.readText (Path.join dir Project.fileName) := by
    unfold readText
    cases he : u.lookup (Path.join dir Project.fileName) with
    | none => unfold readText at hp; rw [he] at hp; cases hp
    | some e => rw [h.agreesOff.lookup_eq (h.free.place?_ne he), he]
  rw [hread]
  exact hp

/-- Manifests are imported from the same places. -/
theorem manifestImports_congr {m : Manifests} (hdir : u'.canonical? dir = u.canonical? dir)
    (h : ∀ k ∈ m.networks, u'.canonical? k.path = u.canonical? k.path) :
    manifestImports u' m dir = manifestImports u m dir := by
  have hone : ∀ here, ∀ k ∈ m.networks, manifestImport u' here k = manifestImport u here k := by
    intro here k hk
    unfold manifestImport canonical
    rw [h k hk]
  have hall : ∀ here (ks : List Manifest), (∀ k ∈ ks, k ∈ m.networks) →
      ks.mapM (manifestImport u' here) = ks.mapM (manifestImport u here) := by
    intro here ks
    induction ks with
    | nil => exact fun _ => by rw [List.mapM_nil, List.mapM_nil]
    | cons k rest ih =>
      intro hks
      rw [List.mapM_cons, List.mapM_cons, hone here k (hks k List.mem_cons_self),
        ih fun k hk => hks k (List.mem_cons_of_mem _ hk)]
  have hhere : canonical u' dir = canonical u dir := by
    unfold canonical
    rw [hdir]
  rw [manifestImports_eq, manifestImports_eq, hhere]
  exact bind_congr fun here => hall here m.networks fun _ => id

theorem FileTree.AgreesOff.canonical?_eq {path : String} (h : AgreesOff place u u')
    (hpath : u.place? path ≠ some place) : u'.canonical? path = u.canonical? path := by
  unfold canonical?
  rw [h.resolve_eq hpath]

end Steps

/-! ## The two runs -/

/-- **A further artifact**: a file below the directory of artifacts, in nothing else's place and
outside the output directory, in a tree and in what is left of it when that directory is cleared. -/
structure IsFurtherArtifact (o : RunOptions) (t cleared : FileTree) (x : FoundFile)
    (place : List String) : Prop where
  candidate : isCandidate x = true
  below : ∃ base, cleared.canonical? o.artifactDir = some base ∧ place = base ++ x.way
  free : t.IsFree place
  stillFree : cleared.IsFree place
  outside : ∀ q, (t.resolve false o.outputDir).place? = some q → ¬ q <+: place

namespace Course

variable {c : Course} {o : RunOptions} {t final : FileTree} {report : Report} {x : FoundFile}
  {place : List String}

theorem failures_artifactActions (c : Course) :
    c.artifactActions.filterMap Action.failure? =
      c.artifacts.filterMap (FoundArtifact.contractFailure? c.project) ++
        c.artifacts.filterMap FoundArtifact.scriptFailure? := by
  have hcontracts : (c.artifacts.flatMap (contractActions c.project)).filterMap Action.failure? =
      c.artifacts.filterMap (FoundArtifact.contractFailure? c.project) := by
    induction c.artifacts with
    | nil => rfl
    | cons a rest ih =>
      rw [List.flatMap_cons, List.filterMap_append, failures_contractActions, ih, List.filterMap_cons]
      cases a.contractFailure? c.project <;> rfl
  have hscripts : (c.artifacts.flatMap scriptActions).filterMap Action.failure? =
      c.artifacts.filterMap FoundArtifact.scriptFailure? := by
    induction c.artifacts with
    | nil => rfl
    | cons a rest ih =>
      rw [List.flatMap_cons, List.filterMap_append, failures_scriptActions, ih, List.filterMap_cons]
      cases a.scriptFailure? <;> rfl
  have hshared : (sharedActions c.contracts (c.artifacts.filterMap boundScript?)).filterMap
      Action.failure? = [] := rfl
  unfold artifactActions
  rw [List.filterMap_append, List.filterMap_append, hcontracts, hscripts, hshared, List.append_nil]

theorem IsOf.failures (h : c.IsOf o t final report) :
    report.failures = (c.cleared.discovery o.artifactDir).allFailures c.project := by
  unfold Discovery.allFailures
  rw [h.report, c.failures_artifactActions, ← h.artifacts, List.append_assoc]

/-- The output directory is there once it is cleared. -/
theorem IsOf.outputDir (h : c.IsOf o t final report) :
    ∃ base, c.cleared.resolve true o.outputDir = .found base := by
  have hutils : Binding.utilsUnit ∈ c.units o :=
    List.mem_append_left _ (List.mem_append_right _ (by simp [shared]))
  obtain ⟨place, hplace⟩ := FileTree.place?_of_writeAll h.writeAll _ hutils
  obtain ⟨base, hbase, -⟩ := FileTree.place?_join (isDirPath_outputDir o)
    (isEntryName_fileName (by decide)) hplace
  exact ⟨base, hbase⟩

/-- **The course of the second run** comes across the same, but for the failure. -/
theorem IsOf.with_failing (h : c.IsOf o t final report) {f : UnitFailure}
    (hx : IsFurtherArtifact o t c.cleared x place)
    (hmanifests : ∀ n ∈ o.networks, c.cleared.place? (n.manifestPath o.deploymentDir) ≠ some place)
    (hf : x.failure? c.project o.artifactDir = some f) :
    ∃ (c' : Course) (final' : FileTree) (report' : Report),
      c'.IsOf o (t.set place (.file x.text)) final' report' ∧ c'.units o = c.units o ∧
        c.cleared.AgreesOff place c'.cleared ∧ final.AgreesOff place final' ∧
        Inserted f report.failures report'.failures := by
  -- The trees differ by the file until the first units are written, and at its place from then on.
  obtain ⟨outputPlace, houtput⟩ := h.outputDir
  obtain ⟨cleared', hcleared, hadds⟩ := (addsFile_set hx.free x.text).cleared? h.cleared hx.outside
    hx.stillFree houtput
  obtain ⟨base, hbase, rfl⟩ := hx.below
  have hfurther : Discovery.HasFurther c.project f (c.cleared.discovery o.artifactDir)
      (cleared'.discovery o.artifactDir) :=
    Discovery.hasFurther_ofFiles ((hadds.filesUnder hbase).filter hx.candidate) hf
  obtain ⟨early', hearly, hagrees⟩ := hadds.agreesOff.writeAll h.early
  obtain ⟨final', hfinal, hagrees'⟩ := hagrees.writeAll h.final
  have hplace := FileTree.place?_writeAll h.early
  -- No path that is looked up after the artifacts were read leads to the new file.
  have hlookup : ∀ n ∈ o.networks, early'.lookup (n.manifestPath o.deploymentDir) =
      c.early.lookup (n.manifestPath o.deploymentDir) := by
    intro n hn
    refine hagrees.lookup_eq ?_
    rw [hplace]
    exact hmanifests n hn
  have himports : manifestImports early' c.manifests o.outputDir =
      manifestImports c.early c.manifests o.outputDir := by
    refine manifestImports_congr (hagrees.canonical?_eq ?_) fun k hk => hagrees.canonical?_eq ?_
    · rw [hplace]
      unfold FileTree.place?
      rw [houtput]
      exact fun he => hx.stillFree.not_found houtput (Option.some.inj he ▸ List.prefix_rfl)
    · obtain ⟨n, hn, hpath⟩ := Manifests.path_of_ofDir h.manifests hk
      rw [hplace, hpath]
      exact hmanifests n hn
  let c' : Course :=
    { c with
      cleared := cleared'
      artifacts := (cleared'.discovery o.artifactDir).artifacts
      early := early' }
  have hbound : c'.bound = c.bound := by
    unfold bound
    rw [h.artifacts]
    exact hfurther.units
  have hcontracts : c'.contracts = c.contracts := by
    unfold contracts
    rw [h.artifacts]
    exact hfurther.contracts
  have hshared : c'.shared = c.shared := by
    unfold shared
    rw [hcontracts, h.artifacts]
    exact congrArg (fun scripts => [Binding.scriptsUnit scripts, _, _, _]) hfurther.scripts
  have hdeployments : c'.deployments o = c.deployments o := by
    unfold deployments
    rw [hcontracts]
  have hunits : c'.units o = c.units o := by
    unfold units
    rw [hbound, hshared, hdeployments]
  refine ⟨c', final', _, ⟨hcleared, hadds.project? h.project, rfl, ?_, ?_, ?_, ?_, rfl⟩, hunits,
    hadds.agreesOff, hagrees', ?_⟩
  · rw [hbound, hshared]
    exact hearly
  · rw [Manifests.ofDir_congr hlookup]
    exact h.manifests
  · intro hwrites
    rw [himports]
    exact h.imports hwrites
  · rw [hdeployments]
    exact hfinal
  · rw [h.failures, c'.failures_artifactActions, ← List.append_assoc]
    exact hfurther.failures

/-- Runs that write the same units to the same places leave the same texts in their files. -/
theorem IsOf.readText_eq_of_units {c' : Course} {t' final' : FileTree} {report' : Report}
    (h : c.IsOf o t final report) (h' : c'.IsOf o t' final' report')
    (hunits : c'.units o = c.units o)
    (hplace : ∀ path, c'.cleared.place? path = c.cleared.place? path) {u : SourceUnit}
    (hu : u ∈ c.units o) :
    final'.readText (Path.join o.outputDir u.fileName) =
      final.readText (Path.join o.outputDir u.fileName) := by
  have hwriters : c'.writers o u = c.writers o u := by
    unfold writers FileTree.writersTo
    simp only [hplace, hunits]
  obtain ⟨v, hv, hread⟩ := readText_eq h hu
  obtain ⟨v', hv', hread'⟩ := readText_eq h' (hunits.symm ▸ hu)
  rw [hwriters, hv] at hv'
  cases hv'
  rw [hread, hread']

end Course

/-- **A run ends as another one, with one failure more**: the same files, in the same order and with
the same texts. -/
structure AddsFailure (dir : String) (place : List String) (f : UnitFailure)
    (first second : Outcome) (report report' : Report) : Prop where
  returns : second.result = .ok report'
  generated : report'.generated = report.generated
  texts : ∀ name ∈ report.generated,
    second.tree.readText (Path.join dir name) = first.tree.readText (Path.join dir name)
  elsewhere : first.tree.AgreesOff place second.tree
  failures : Inserted f report.failures report'.failures

/-- **A failing artifact leaves the others alone.** A run on a tree with a further artifact that has
no binding ends with a report if the run without it does. It writes the same units in the same order
and reports one failure more, for that artifact. No manifest may be read through that artifact's
path: what is wrong with a manifest ends a run. -/
theorem failing_artifact_isolated {o : RunOptions} {t cleared : FileTree} {p : Project}
    {report : Report} {x : FoundFile} {place : List String} {f : UnitFailure}
    (hrun : ((codegen o).outcome t).result = .ok report)
    (hcleared : t.cleared? o.outputDir = some cleared)
    (hproject : cleared.project? o.artifactDir = some p)
    (hx : IsFurtherArtifact o t cleared x place)
    (hmanifests : ∀ n ∈ o.networks, cleared.place? (n.manifestPath o.deploymentDir) ≠ some place)
    (hf : x.failure? p o.artifactDir = some f) :
    ∃ (c c' : Course) (report' : Report),
      c.IsOf o t ((codegen o).outcome t).tree report ∧
        c'.IsOf o (t.set place (.file x.text))
          ((codegen o).outcome (t.set place (.file x.text))).tree report' ∧
        c'.units o = c.units o ∧
        AddsFailure o.outputDir place f ((codegen o).outcome t)
          ((codegen o).outcome (t.set place (.file x.text))) report report' := by
  obtain ⟨c, hc⟩ := codegen_eq_ok_iff.1 ⟨hrun, rfl⟩
  -- The course without the artifact fixes the course with it, up to one more failure.
  cases hc.cleared.symm.trans hcleared
  cases hc.project.symm.trans hproject
  obtain ⟨c', final', report', hc', hunits, hcleared', hfinal, hfailures⟩ :=
    hc.with_failing hx hmanifests hf
  obtain ⟨hrun', htree⟩ := codegen_eq_ok_iff.2 ⟨c', hc'⟩
  refine ⟨c, c', report', hc, htree.symm ▸ hc', hunits, hrun', ?_, ?_, htree.symm ▸ hfinal,
    hfailures⟩
  · rw [hc.report, hc'.report, hunits]
  · intro name hname
    rw [hc.report] at hname
    obtain ⟨u, hu, rfl⟩ := List.mem_map.1 hname
    rw [htree]
    exact hc.readText_eq_of_units hc' hunits hcleared'.place?_eq hu

/-! ### A manifest that is a link to an artifact -/

/-- A contract, and a manifest that is a link to a file that is not there. -/
def danglingTree : FileTree where
  entries :=
    [(["work", ".project.json"], .file (some oneInfoText)),
      (["work", "A.ral.json"], .file (some emptyContractText)),
      (["work", ".deployments.testnet.json"], .link "X.ral.json")]
  workDir := ["work"]

def testnetOptions : RunOptions := ⟨".", ".", false, [.testnet]⟩

/-- A file with the name of an artifact whose text is not a document. -/
def brokenArtifact (name : String) : FoundFile := ⟨[name], some "\x7b"⟩

/-- The tree with the file that the link leads to. -/
def danglingTreeWithTarget : FileTree :=
  danglingTree.set ["work", "X.ral.json"] (.file (brokenArtifact "X.ral.json").text)

/-- A tree with an output directory. -/
def withOutput (t : FileTree) : FileTree := { t with entries := t.entries ++ [(["work", "ts"], .dir)] }

theorem dangling_cleared :
    danglingTree.cleared? testnetOptions.outputDir = some (withOutput danglingTree) ∧
      danglingTreeWithTarget.cleared? testnetOptions.outputDir =
        some (withOutput danglingTreeWithTarget) := ⟨rfl, rfl⟩

@[irreducible] def danglingProject : Project :=
  ((withOutput danglingTree).project? testnetOptions.artifactDir).get (by decide +kernel)

theorem dangling_project :
    (withOutput danglingTree).project? testnetOptions.artifactDir = some danglingProject ∧
      (withOutput danglingTreeWithTarget).project? testnetOptions.artifactDir =
        some danglingProject := by
  have hfirst : (withOutput danglingTree).project? testnetOptions.artifactDir =
      some danglingProject := by
    unfold danglingProject
    rw [Option.some_get]
  have hread : (withOutput danglingTreeWithTarget).readText "./.project.json" =
      (withOutput danglingTree).readText "./.project.json" := rfl
  refine ⟨hfirst, ?_⟩
  unfold FileTree.project? at hfirst ⊢
  exact (congrArg (fun text => text.bind fun text => (Project.ofText text).toOption) hread).trans
    hfirst

/-- The one artifact that can be read. -/
@[irreducible] def danglingArtifact : FoundArtifact :=
  ((⟨["A.ral.json"], some emptyContractText⟩ : FoundFile).artifact? ".").get (by decide +kernel)

theorem dangling_candidates :
    candidates (withOutput danglingTree) "." = [⟨["A.ral.json"], some emptyContractText⟩] ∧
      candidates (withOutput danglingTreeWithTarget) "." =
        [⟨["A.ral.json"], some emptyContractText⟩, brokenArtifact "X.ral.json"] := by
  have hplace : (withOutput danglingTree).canonical? "." = some ["work"] ∧
      (withOutput danglingTreeWithTarget).canonical? "." = some ["work"] := ⟨rfl, rfl⟩
  have hfiles : (withOutput danglingTree).filesUnder "." =
      [⟨[".project.json"], some oneInfoText⟩, ⟨["A.ral.json"], some emptyContractText⟩] := by
    unfold FileTree.filesUnder
    rw [hplace.1]
    exact List.mergeSort_of_pairwise (by decide +kernel)
  have hfiles' : (withOutput danglingTreeWithTarget).filesUnder "." =
      [⟨[".project.json"], some oneInfoText⟩, ⟨["A.ral.json"], some emptyContractText⟩,
        brokenArtifact "X.ral.json"] := by
    unfold FileTree.filesUnder
    rw [hplace.2]
    exact List.mergeSort_of_pairwise (by decide +kernel)
  unfold candidates
  rw [hfiles, hfiles']
  exact ⟨rfl, rfl⟩

theorem broken_unreadable : ((brokenArtifact "X.ral.json").unreadable? ".").isSome = true ∧
    ((brokenArtifact "Z.ral.json").unreadable? ".").isSome = true := by
  decide +kernel

theorem dangling_artifacts :
    ((withOutput danglingTree).discovery ".").artifacts = [danglingArtifact] ∧
      ((withOutput danglingTreeWithTarget).discovery ".").artifacts = [danglingArtifact] := by
  have hfirst : (⟨["A.ral.json"], some emptyContractText⟩ : FoundFile).artifact? "." =
      some danglingArtifact := by
    unfold danglingArtifact
    rw [Option.some_get]
  obtain ⟨fault, hfault⟩ := Option.isSome_iff_exists.1 broken_unreadable.1
  have hsecond := artifact?_of_unreadable? hfault
  unfold FileTree.discovery
  rw [dangling_candidates.1, dangling_candidates.2, Discovery.artifacts_ofFiles,
    Discovery.artifacts_ofFiles, List.filterMap_cons, List.filterMap_cons, List.filterMap_cons,
    hfirst, hsecond]
  exact ⟨List.mergeSort_singleton _, List.mergeSort_singleton _⟩

theorem dangling_contracts :
    [danglingArtifact].filterMap (boundContract? danglingProject) = ["A"] := by
  decide +kernel

/-- What is written before the unit of the deployments. -/
def danglingUnits : List SourceUnit :=
  [danglingArtifact].filterMap (boundUnit? danglingProject) ++
    [Binding.scriptsUnit ([danglingArtifact].filterMap boundScript?),
      Binding.contractsUnit ["A"], Binding.utilsUnit, Binding.indexUnit ["A"]]

/-- Without the file there is no manifest. -/
theorem dangling_written :
    ((withOutput danglingTree).writeAll testnetOptions.outputDir danglingUnits).any
      (fun t => !t.hasEntry "./.deployments.testnet.json") = true := by
  decide +kernel

/-- With the file there is a manifest that cannot be read. -/
theorem target_written :
    ((withOutput danglingTreeWithTarget).writeAll testnetOptions.outputDir danglingUnits).all
      (fun t => (Manifests.ofDir t "." [.testnet]).2.toOption.isNone) = true := by
  decide +kernel

theorem dangling_units {c : Course} (hproject : c.project = danglingProject)
    (hartifacts : c.artifacts = [danglingArtifact]) : c.bound ++ c.shared = danglingUnits := by
  unfold Course.bound Course.shared Course.contracts danglingUnits
  rw [hproject, hartifacts, dangling_contracts]

theorem dangling_isOf : ∃ (c : Course) (final : FileTree) (report : Report),
    c.IsOf testnetOptions danglingTree final report := by
  obtain ⟨early, hearly, hnone⟩ := (Option.any_eq_true _ _).1 dangling_written
  let c : Course := ⟨withOutput danglingTree, danglingProject, [danglingArtifact], early, ⟨[]⟩, []⟩
  have hmanifests : (Manifests.ofDir early "." [.testnet]).2 = .ok ⟨[]⟩ := by
    have hpath : Network.testnet.manifestPath "." = "./.deployments.testnet.json" := by decide
    have hmissing : early.hasEntry (Network.testnet.manifestPath ".") = false := by
      rw [hpath]
      simpa using hnone
    have hofDir : Manifest.ofDir? early "." .testnet = .ok none := by
      unfold Manifest.ofDir?
      dsimp only
      rw [hmissing]
      rfl
    rw [Manifests.ofDir_cons, hofDir]
    rfl
  have hunits := dangling_units (c := c) rfl rfl
  refine ⟨c, early, _, dangling_cleared.1, dangling_project.1, dangling_artifacts.1.symm, ?_,
    hmanifests, ?_, rfl, rfl⟩
  · rw [hunits]
    exact hearly
  · intro h
    cases h

theorem failing_artifact_isolated_broken :
    ∃ report f, ((codegen testnetOptions).outcome danglingTree).result = .ok report ∧
      IsFurtherArtifact testnetOptions danglingTree (withOutput danglingTree)
        (brokenArtifact "Z.ral.json") ["work", "Z.ral.json"] ∧
      (brokenArtifact "Z.ral.json").failure? danglingProject "." = some f ∧
      ∃ (c c' : Course) (report' : Report),
        c.IsOf testnetOptions danglingTree ((codegen testnetOptions).outcome danglingTree).tree
            report ∧
          c'.IsOf testnetOptions
            (danglingTree.set ["work", "Z.ral.json"] (.file (brokenArtifact "Z.ral.json").text))
            ((codegen testnetOptions).outcome (danglingTree.set ["work", "Z.ral.json"]
              (.file (brokenArtifact "Z.ral.json").text))).tree report' ∧
          c'.units testnetOptions = c.units testnetOptions ∧
          AddsFailure testnetOptions.outputDir ["work", "Z.ral.json"] f
            ((codegen testnetOptions).outcome danglingTree)
            ((codegen testnetOptions).outcome (danglingTree.set ["work", "Z.ral.json"]
              (.file (brokenArtifact "Z.ral.json").text))) report report' := by
  obtain ⟨c, final, report, hc⟩ := dangling_isOf
  obtain ⟨hrun, -⟩ := codegen_eq_ok_iff.2 ⟨c, hc⟩
  have hx : IsFurtherArtifact testnetOptions danglingTree (withOutput danglingTree)
      (brokenArtifact "Z.ral.json") ["work", "Z.ral.json"] :=
    ⟨by decide, ⟨["work"], rfl, rfl⟩, ⟨by decide, by decide⟩, ⟨by decide, by decide⟩, by
      intro q hq
      cases hq
      decide⟩
  obtain ⟨f, hf⟩ := Option.isSome_iff_exists.1 broken_unreadable.2
  have hfailure : (brokenArtifact "Z.ral.json").failure? danglingProject "." = some f :=
    Option.or_eq_some_iff.2 (Or.inl hf)
  refine ⟨report, f, hrun, hx, hfailure, ?_⟩
  refine failing_artifact_isolated hrun dangling_cleared.1 dangling_project.1 hx ?_ hfailure
  -- The manifest is a link to another file.
  intro n hn
  cases List.mem_singleton.1 hn
  decide

/-- With a broken artifact where the manifest's link leads to, there is no report. -/
theorem dangling_manifest_ends_run :
    (∃ report, ((codegen testnetOptions).outcome danglingTree).result = .ok report) ∧
      IsFurtherArtifact testnetOptions danglingTree (withOutput danglingTree)
        (brokenArtifact "X.ral.json") ["work", "X.ral.json"] ∧
      (∃ f, (brokenArtifact "X.ral.json").failure? danglingProject "." = some f) ∧
      ¬ ∃ report, ((codegen testnetOptions).outcome (danglingTree.set ["work", "X.ral.json"]
        (.file (brokenArtifact "X.ral.json").text))).result = .ok report := by
  obtain ⟨c, final, report, hc⟩ := dangling_isOf
  obtain ⟨f, hf⟩ := Option.isSome_iff_exists.1 broken_unreadable.1
  refine ⟨⟨report, (codegen_eq_ok_iff.2 ⟨c, hc⟩).1⟩, ?_, ⟨f, Option.or_eq_some_iff.2 (Or.inl hf)⟩,
    ?_⟩
  · exact ⟨by decide, ⟨["work"], rfl, rfl⟩, ⟨by decide, by decide⟩, ⟨by decide, by decide⟩, by
      intro q hq
      cases hq
      decide⟩
  · rintro ⟨report', hrun'⟩
    obtain ⟨c', hc'⟩ := codegen_eq_ok_iff.1 ⟨hrun', rfl⟩
    have hcleared : c'.cleared = withOutput danglingTreeWithTarget :=
      Option.some.inj (hc'.cleared.symm.trans dangling_cleared.2)
    have hproject : c'.project = danglingProject :=
      Option.some.inj (hc'.project.symm.trans (hcleared ▸ dangling_project.2))
    have hartifacts : c'.artifacts = [danglingArtifact] :=
      hc'.artifacts.trans (hcleared ▸ dangling_artifacts.2)
    have hearly := hc'.early
    rw [dangling_units hproject hartifacts, hcleared] at hearly
    have hnone := (Option.all_eq_true _ _).1 target_written _ hearly
    have hsome := hc'.manifests
    unfold testnetOptions at hsome
    rw [hsome] at hnone
    cases hnone

end TypedBindings
