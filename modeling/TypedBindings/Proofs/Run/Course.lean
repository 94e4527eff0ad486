import TypedBindings.Proofs.Run.Steps

/-!
# The course of a run that ends with a report

What a run comes across, in the order of its steps: the cleared output directory, the project and
the artifacts, the tree with the first units in it, and the manifests.

* `Course`: what a run comes across, and the units that it writes because of that.
* `Course.IsOf`: the course of a run on a tree.
* `returns_find_iff`: the state in which a run makes its bindings.
* `codegen_eq_ok_iff`: a run ends with a report and a tree exactly if it has a course to them.
-/

namespace TypedBindings

open TypeScript

/-! ## Single steps -/

/-- The tree with an output directory cleared. -/
def FileTree.cleared? (t : FileTree) (dir : String) : Option FileTree :=
  (if t.hasEntry dir then t.removeDirAll dir else some t).bind fun t =>
    if (t.createDirAll dir).2 then some (t.createDirAll dir).1 else none

/-- The project whose file is in a directory. -/
def FileTree.project? (t : FileTree) (dir : String) : Option Project :=
  (t.readText (Path.join dir Project.fileName)).bind fun text => (Project.ofText text).toOption

/-- What is found in a directory of artifacts. -/
def FileTree.discovery (t : FileTree) (dir : String) : Discovery :=
  .ofFiles dir (candidates t dir)

variable {s s' : RunState} {dir : String}

/-- Makes a directory, which is what is left of `Run.clear` once nothing stands in the way. -/
def makeDir (dir : String) : Run Unit := do
  let made := (← get).tree.createDirAll dir
  modify fun s => { s with tree := made.1 }
  if !made.2 then throw ⟨.create, dir, .io⟩

theorem returns_makeDir_iff {r : Unit} :
    (makeDir dir).Returns s r s' ↔
      ∃ tree, (if (s.tree.createDirAll dir).2 then some (s.tree.createDirAll dir).1 else none) =
        some tree ∧ s' = { s with tree } := by
  unfold makeDir
  rw [Run.returns_get_bind_iff]
  dsimp only
  rw [Run.returns_modify_bind_iff]
  cases (s.tree.createDirAll dir).2
  · simp [Run.returns_throw_iff]
  · simp [Run.returns_pure_iff]

theorem returns_clear_iff {r : Unit} :
    (Run.clear dir).Returns s r s' ↔
      ∃ tree, s.tree.cleared? dir = some tree ∧ s' = { s with tree } := by
  unfold Run.clear FileTree.cleared?
  rw [Run.returns_get_bind_iff]
  by_cases hhas : s.tree.hasEntry dir = true
  · rw [if_pos hhas, if_pos hhas]
    cases s.tree.removeDirAll dir with
    | none => simp [Run.returns_throw_iff]
    | some tree =>
      dsimp only
      exact returns_makeDir_iff (s := { s with tree })
  · rw [if_neg hhas, if_neg hhas]
    exact returns_makeDir_iff (s := s)

theorem returns_readProject_iff {p : Project} :
    (Run.readProject dir).Returns s p s' ↔ s.tree.project? dir = some p ∧ s' = s := by
  unfold Run.readProject FileTree.project?
  rw [Run.returns_get_bind_iff]
  cases s.tree.readText (Path.join dir Project.fileName) with
  | none => simp [Run.returns_throw_iff]
  | some text =>
    dsimp only
    cases hp : Project.ofText text with
    | error fault => simp [Run.returns_throw_iff, hp, Except.toOption]
    | ok p' => simp [Run.returns_pure_iff, hp, Except.toOption, eq_comm]

/-- What is done when artifacts are looked for. -/
def discoveryActions (dir : String) (d : Discovery) : List Action :=
  d.failures.flatMap (fun f => [.say ⟨.error, .run, f.cause.message⟩, .fail f]) ++
    [.say ⟨.info, .run, s!"Found {d.artifacts.length} artifact(s) in {dir}"⟩]

theorem units_reports (failures : List UnitFailure) :
    (failures.flatMap fun f => [Action.say ⟨.error, .run, f.cause.message⟩, .fail f]).filterMap
      Action.unit? = [] := by
  rw [List.filterMap_eq_nil_iff]
  intro a ha
  obtain ⟨f, -, ha⟩ := List.mem_flatMap.1 ha
  rcases List.mem_cons.1 ha with rfl | ha
  · rfl
  · rw [List.mem_singleton.1 ha]; rfl

theorem returns_discover_iff {artifacts : List FoundArtifact} :
    (Run.discover dir).Returns s artifacts s' ↔
      artifacts = (s.tree.discovery dir).artifacts ∧
        s' = s.acted dir (discoveryActions dir (s.tree.discovery dir)) s.tree := by
  have hacted := fun reports e => (acted_say (s.acted dir reports s.tree) dir e).symm.trans
    (acted_append s dir reports [.say e] s.tree s.tree)
  unfold Run.discover
  rw [Run.returns_get_bind_iff]
  dsimp only
  rw [Run.returns_bind_iff]
  constructor
  · rintro ⟨_, s₁, hreports, h⟩
    obtain ⟨tree, htree, rfl⟩ := returns_performAll_iff.1 hreports
    rw [units_reports] at htree
    cases htree
    unfold Run.say at h
    rw [Run.returns_modify_bind_iff, Run.returns_pure_iff] at h
    exact ⟨h.1, h.2.trans (hacted _ _)⟩
  · rintro ⟨rfl, rfl⟩
    refine ⟨(), _, returns_performAll_iff.2 ⟨s.tree, by rw [units_reports]; rfl, rfl⟩, ?_⟩
    unfold Run.say
    rw [Run.returns_modify_bind_iff, Run.returns_pure_iff]
    exact ⟨rfl, (hacted _ _).symm⟩

/-- **The state in which a run makes its bindings**: the output directory is cleared, and the
artifacts that could not be read are reported. -/
theorem returns_find_iff {o : RunOptions} {found : Sources} :
    (Run.find o).Returns s found s' ↔ ∃ cleared, s.tree.cleared? o.outputDir = some cleared ∧
      cleared.project? o.artifactDir = some found.project ∧
      found.artifacts = (cleared.discovery o.artifactDir).artifacts ∧
      s' = ({ s with tree := cleared } : RunState).acted o.artifactDir
        (discoveryActions o.artifactDir (cleared.discovery o.artifactDir)) cleared := by
  unfold Run.find
  constructor
  · intro h
    obtain ⟨_, s₁, hclear, h⟩ := Run.returns_bind_iff.1 h
    obtain ⟨cleared, hcleared, rfl⟩ := returns_clear_iff.1 hclear
    obtain ⟨project, s₂, hread, h⟩ := Run.returns_bind_iff.1 h
    obtain ⟨hproject, rfl⟩ := returns_readProject_iff.1 hread
    obtain ⟨artifacts, s₃, hdiscover, h⟩ := Run.returns_bind_iff.1 h
    obtain ⟨rfl, rfl⟩ := returns_discover_iff.1 hdiscover
    obtain ⟨rfl, rfl⟩ := Run.returns_pure_iff.1 h
    exact ⟨cleared, hcleared, hproject, rfl, rfl⟩
  · rintro ⟨cleared, hcleared, hproject, hartifacts, rfl⟩
    refine Run.returns_bind_iff.2 ⟨(), _, returns_clear_iff.2 ⟨cleared, hcleared, rfl⟩, ?_⟩
    refine Run.returns_bind_iff.2 ⟨_, _, returns_readProject_iff.2 ⟨hproject, rfl⟩, ?_⟩
    refine Run.returns_bind_iff.2 ⟨_, _, returns_discover_iff.2 ⟨rfl, rfl⟩, ?_⟩
    refine Run.returns_pure_iff.2 ⟨?_, rfl⟩
    rw [← hartifacts]

theorem returns_readManifests_iff {networks : List Network} {m : Manifests} :
    (Run.readManifests dir networks).Returns s m s' ↔
      ∃ log, Manifests.ofDir s.tree dir networks = (log, .ok m) ∧
        s' = { s with log := s.log ++ log } := by
  unfold Run.readManifests
  rw [Run.returns_get_bind_iff]
  obtain ⟨log, result⟩ := Manifests.ofDir s.tree dir networks
  dsimp only
  rw [Run.returns_modify_bind_iff]
  cases result with
  | error fault => simp [Run.returns_throw_iff]
  | ok m' =>
    rw [Run.returns_pure_iff]
    constructor
    · rintro ⟨rfl, rfl⟩
      exact ⟨log, rfl, rfl⟩
    · rintro ⟨_, h, rfl⟩
      cases h
      exact ⟨rfl, rfl⟩

/-- Where a directory imports one manifest from. -/
def manifestImport (t : FileTree) (here : List String) (k : Manifest) :
    Except FileFault Binding.ManifestImport := do
  let place ← canonical t k.path
  return ⟨k.network, Path.specifier (Path.relative here place)⟩

theorem manifestImports_eq (t : FileTree) (m : Manifests) (dir : String) :
    manifestImports t m dir =
      canonical t dir >>= fun here => m.networks.mapM (manifestImport t here) := rfl

/-- What is done for the deployments, with what is said before. -/
def writeDeploymentsActions (m : Manifests) (imports : List Binding.ManifestImport)
    (contracts : List String) : List Action :=
  .say (Log.success "Generating" "deployments") :: deploymentActions m imports contracts

theorem units_writeDeploymentsActions (m : Manifests) (imports : List Binding.ManifestImport)
    (contracts : List String) :
    (writeDeploymentsActions m imports contracts).filterMap Action.unit? =
      [Binding.deploymentsUnit m imports contracts] := by
  have hskipped : ((Binding.skippedTasks m contracts).map skipped).filterMap Action.unit? = [] := by
    rw [List.filterMap_map, List.filterMap_eq_nil_iff]
    exact fun _ _ => rfl
  unfold writeDeploymentsActions deploymentActions
  rw [List.filterMap_cons, List.filterMap_append, hskipped]
  rfl

theorem returns_writeDeployments_iff {m : Manifests} {contracts : List String} {r : Unit} :
    (Run.writeDeployments dir m contracts).Returns s r s' ↔
      ∃ imports tree, manifestImports s.tree m dir = .ok imports ∧
        s.tree.writeAll dir [Binding.deploymentsUnit m imports contracts] = some tree ∧
        s' = s.acted dir (writeDeploymentsActions m imports contracts) tree := by
  unfold Run.writeDeployments Run.say
  rw [Run.returns_modify_bind_iff, Run.returns_get_bind_iff]
  dsimp only
  cases manifestImports s.tree m dir with
  | error fault => simp [Run.returns_throw_iff]
  | ok imports =>
    have hunits := units_writeDeploymentsActions m imports contracts
    dsimp only
    rw [← acted_say s dir, returns_performAll_iff]
    simp only [acted_append]
    constructor
    · rintro ⟨tree, htree, rfl⟩
      exact ⟨imports, tree, rfl, hunits ▸ htree, rfl⟩
    · rintro ⟨_, tree, h, htree, rfl⟩
      cases h
      exact ⟨tree, hunits.symm ▸ htree, rfl⟩

/-! ## Units -/

/-- The unit of an artifact's contract, if it has a binding. -/
def boundUnit? (p : Project) (f : FoundArtifact) : Option SourceUnit :=
  match f.artifact with
  | .script _ => none
  | .contract c => (bindContract p c f.path).toOption

theorem units_failed (name kind : String) (fault : Binding.Fault) :
    (failed name kind fault).filterMap Action.unit? = [] := rfl

theorem units_contractActions (p : Project) (f : FoundArtifact) :
    (contractActions p f).filterMap Action.unit? = (boundUnit? p f).toList := by
  unfold contractActions boundUnit?
  cases f.artifact with
  | script s => rfl
  | contract c =>
    dsimp only
    cases bindContract p c f.path with
    | error fault => exact units_failed _ _ fault
    | ok u => rfl

theorem units_scriptActions (f : FoundArtifact) :
    (scriptActions f).filterMap Action.unit? = [] := by
  unfold scriptActions
  cases f.artifact with
  | contract c => rfl
  | script s =>
    dsimp only
    cases bindScript s with
    | error fault => exact units_failed _ _ fault
    | ok abi => rfl

/-- Whether the unit of the deployments is written. -/
def writesDeployments (o : RunOptions) (m : Manifests) : Bool := !m.isEmpty || o.wantsDeployments

def deploymentUnits (o : RunOptions) (m : Manifests) (imports : List Binding.ManifestImport)
    (contracts : List String) : List SourceUnit :=
  if writesDeployments o m then [Binding.deploymentsUnit m imports contracts] else []

/-- What a run comes across. -/
structure Course where
  /-- The tree when the output directory is cleared. -/
  cleared : FileTree
  project : Project
  artifacts : List FoundArtifact
  /-- The tree when every unit but that of the deployments is written. -/
  early : FileTree
  manifests : Manifests
  /-- Where the manifests are imported from, if the unit of the deployments is written. -/
  imports : List Binding.ManifestImport

namespace Course

/-- The contracts with a binding. -/
def contracts (c : Course) : List String := c.artifacts.filterMap (boundContract? c.project)

/-- The units of the contracts. -/
def bound (c : Course) : List SourceUnit := c.artifacts.filterMap (boundUnit? c.project)

def shared (c : Course) : List SourceUnit :=
  [Binding.scriptsUnit (c.artifacts.filterMap boundScript?), Binding.contractsUnit c.contracts,
    Binding.utilsUnit, Binding.indexUnit c.contracts]

/-- The unit of the deployments, if it is written. -/
def deployments (c : Course) (o : RunOptions) : List SourceUnit :=
  deploymentUnits o c.manifests c.imports c.contracts

/-- Every unit that is written, in order. -/
def units (c : Course) (o : RunOptions) : List SourceUnit := c.bound ++ c.shared ++ c.deployments o

theorem fileNames_units (c : Course) (o : RunOptions) :
    (c.units o).map SourceUnit.fileName =
      (c.bound ++ c.shared).map SourceUnit.fileName ++
        (c.deployments o).map SourceUnit.fileName := by
  unfold units
  rw [List.map_append]

/-- What is done for the artifacts. -/
def artifactActions (c : Course) : List Action :=
  c.artifacts.flatMap (contractActions c.project) ++ c.artifacts.flatMap scriptActions ++
    sharedActions c.contracts (c.artifacts.filterMap boundScript?)

theorem units_artifactActions (c : Course) :
    c.artifactActions.filterMap Action.unit? = c.bound ++ c.shared := by
  have hcontracts : (c.artifacts.flatMap (contractActions c.project)).filterMap Action.unit? =
      c.bound := by
    unfold bound
    induction c.artifacts with
    | nil => rfl
    | cons f rest ih =>
      rw [List.flatMap_cons, List.filterMap_append, units_contractActions, ih, List.filterMap_cons]
      cases boundUnit? c.project f <;> rfl
  have hscripts : (c.artifacts.flatMap scriptActions).filterMap Action.unit? = [] := by
    induction c.artifacts with
    | nil => rfl
    | cons f rest ih => rw [List.flatMap_cons, List.filterMap_append, units_scriptActions, ih]; rfl
  unfold artifactActions
  rw [List.filterMap_append, List.filterMap_append, hcontracts, hscripts, List.append_nil]
  rfl

/-- **The course of a run on a tree** that ends with a report and another tree. -/
structure IsOf (c : Course) (o : RunOptions) (t final : FileTree) (report : Report) : Prop where
  cleared : t.cleared? o.outputDir = some c.cleared
  project : c.cleared.project? o.artifactDir = some c.project
  artifacts : c.artifacts = (c.cleared.discovery o.artifactDir).artifacts
  early : c.cleared.writeAll o.outputDir (c.bound ++ c.shared) = some c.early
  manifests : (Manifests.ofDir c.early o.deploymentDir o.networks).2 = .ok c.manifests
  imports : writesDeployments o c.manifests = true →
    manifestImports c.early c.manifests o.outputDir = .ok c.imports
  final : c.early.writeAll o.outputDir (c.deployments o) = some final
  report : report =
    { generated := (c.units o).map SourceUnit.fileName
      failures := (c.cleared.discovery o.artifactDir).failures ++
        c.artifactActions.filterMap Action.failure? }

end Course

/-! ## The run -/

theorem failures_discoveryActions (dir : String) (d : Discovery) :
    (discoveryActions dir d).filterMap Action.failure? = d.failures := by
  have hreports : ∀ failures : List UnitFailure,
      (failures.flatMap fun f => [Action.say ⟨.error, .run, f.cause.message⟩, .fail f]).filterMap
        Action.failure? = failures := by
    intro failures
    induction failures with
    | nil => rfl
    | cons f rest ih => rw [List.flatMap_cons, List.filterMap_append, ih]; rfl
  unfold discoveryActions
  rw [List.filterMap_append, hreports]
  exact List.append_nil _

theorem units_discoveryActions (dir : String) (d : Discovery) :
    (discoveryActions dir d).filterMap Action.unit? = [] := by
  unfold discoveryActions
  rw [List.filterMap_append, units_reports]; rfl

theorem failures_writeDeploymentsActions (m : Manifests) (imports : List Binding.ManifestImport)
    (contracts : List String) :
    (writeDeploymentsActions m imports contracts).filterMap Action.failure? = [] := by
  have hskipped : ((Binding.skippedTasks m contracts).map skipped).filterMap Action.failure? = [] := by
    rw [List.filterMap_map, List.filterMap_eq_nil_iff]
    exact fun _ _ => rfl
  unfold writeDeploymentsActions deploymentActions
  rw [List.filterMap_cons, List.filterMap_append, hskipped]
  rfl

/-- What is logged last. -/
def summary (r : Report) : Log.Event :=
  ⟨.info, .run, s!"Generated {r.generated.length} file(s) with {r.failures.length} failure(s)"⟩

/-- What a run does last. -/
def summarize : Run Report := do
  let report := (← get).report
  Run.say (summary report)
  return report

/-- What a run does once it has read the manifests. -/
def finish (o : RunOptions) (m : Manifests) (contracts : List String) : Run Report :=
  if writesDeployments o m then
    Run.writeDeployments o.outputDir m contracts >>= fun _ => summarize
  else summarize

theorem performAll_append (dir : String) (actions more : List Action) :
    performAll dir (actions ++ more) = performAll dir actions >>= fun _ => performAll dir more := by
  induction actions with
  | nil => rfl
  | cons a rest ih =>
    rw [List.cons_append, performAll, performAll, ih, bind_assoc]

/-- The last phase of a run. -/
theorem writeShared_eq (o : RunOptions) (s : Sources) :
    Run.writeShared o s = (do
      performAll o.outputDir ((sharedUnits s.contracts s.scripts).map .write)
      let manifests ← Run.readManifests o.deploymentDir o.networks
      finish o manifests s.contracts) := rfl

/-- The steps of a run. What is done for the artifacts is one list of actions. -/
theorem codegen_eq (o : RunOptions) :
    codegen o = (do
      let found ← Run.find o
      performAll o.outputDir (found.artifacts.flatMap (contractActions found.project) ++
        found.artifacts.flatMap scriptActions ++ sharedActions found.contracts found.scripts)
      let manifests ← Run.readManifests o.deploymentDir o.networks
      finish o manifests found.contracts) := by
  have hactions : ∀ (actions : List Action) (found : Sources),
      performAll o.outputDir (actions ++ sharedActions found.contracts found.scripts) =
        performAll o.outputDir (actions ++ [announceScripts found.scripts.length]) >>= fun _ =>
          performAll o.outputDir ((sharedUnits found.contracts found.scripts).map .write) := by
    intro actions found
    rw [← performAll_append, List.append_assoc]
    rfl
  unfold codegen Run.bindArtifacts
  simp only [hactions, writeShared_eq, bind_assoc]

theorem returns_summarize_iff {report : Report} :
    summarize.Returns s report s' ↔
      report = s.report ∧ s' = { s with log := s.log ++ [summary s.report] } := by
  unfold summarize Run.say
  rw [Run.returns_get_bind_iff]
  dsimp only
  rw [Run.returns_modify_bind_iff, Run.returns_pure_iff]

theorem report_acted_writeDeployments (s : RunState) (dir : String) (m : Manifests)
    (imports : List Binding.ManifestImport) (contracts : List String) (tree : FileTree) :
    (s.acted dir (writeDeploymentsActions m imports contracts) tree).report =
      { s.report with
        generated := s.report.generated ++
          [Binding.deploymentsUnit m imports contracts].map SourceUnit.fileName } := by
  unfold RunState.acted
  rw [units_writeDeploymentsActions, failures_writeDeploymentsActions, List.append_nil]

theorem exists_returns_finish_iff {o : RunOptions} {m : Manifests} {contracts : List String}
    {report : Report} {final : FileTree} :
    (∃ s', (finish o m contracts).Returns s report s' ∧ s'.tree = final) ↔
      ∃ imports, (writesDeployments o m = true →
          manifestImports s.tree m o.outputDir = .ok imports) ∧
        s.tree.writeAll o.outputDir (deploymentUnits o m imports contracts) = some final ∧
        report = { s.report with
          generated := s.report.generated ++
            (deploymentUnits o m imports contracts).map SourceUnit.fileName } := by
  unfold finish deploymentUnits
  -- Imports only matter where deployments are written; elsewhere any will do.
  by_cases hwrites : writesDeployments o m = true
  · simp only [hwrites, if_true, forall_const]
    constructor
    · rintro ⟨s', h, rfl⟩
      obtain ⟨_, _, hwrite, h⟩ := Run.returns_bind_iff.1 h
      obtain ⟨imports, tree, himports, htree, rfl⟩ := returns_writeDeployments_iff.1 hwrite
      obtain ⟨rfl, rfl⟩ := returns_summarize_iff.1 h
      exact ⟨imports, himports, htree, report_acted_writeDeployments _ _ _ _ _ _⟩
    · rintro ⟨imports, himports, htree, rfl⟩
      exact ⟨_, Run.returns_bind_iff.2 ⟨(), _,
        returns_writeDeployments_iff.2 ⟨imports, final, himports, htree, rfl⟩,
        returns_summarize_iff.2 ⟨(report_acted_writeDeployments _ _ _ _ _ _).symm, rfl⟩⟩, rfl⟩
  · simp only [hwrites, Bool.false_eq_true, if_false, List.map_nil, List.append_nil]
    constructor
    · rintro ⟨s', h, rfl⟩
      obtain ⟨rfl, rfl⟩ := returns_summarize_iff.1 h
      exact ⟨[], False.elim, rfl, rfl⟩
    · rintro ⟨imports, -, htree, rfl⟩
      cases htree
      exact ⟨_, returns_summarize_iff.2 ⟨rfl, rfl⟩, rfl⟩

theorem report_discovered (s : RunState) (dir : String) (d : Discovery) (tree : FileTree) :
    (s.acted dir (discoveryActions dir d) tree).report =
      { s.report with failures := s.report.failures ++ d.failures } := by
  unfold RunState.acted
  rw [units_discoveryActions, failures_discoveryActions, List.map_nil, List.append_nil]

theorem report_artifactActions (s : RunState) (dir : String) (c : Course) (tree : FileTree) :
    (s.acted dir c.artifactActions tree).report =
      { generated := s.report.generated ++ (c.bound ++ c.shared).map SourceUnit.fileName
        failures := s.report.failures ++ c.artifactActions.filterMap Action.failure? } := by
  unfold RunState.acted
  rw [c.units_artifactActions]

theorem outcome_eq_ok_iff {run : Run Report} {t final : FileTree} {report : Report} :
    (run.outcome t).result = .ok report ∧ (run.outcome t).tree = final ↔
      ∃ s', run.Returns { tree := t } report s' ∧ s'.tree = final := by
  show (run.run.run { tree := t }).1 = _ ∧ (run.run.run { tree := t }).2.tree = _ ↔ _
  unfold Run.Returns
  constructor
  · rintro ⟨hresult, htree⟩
    exact ⟨_, Prod.ext hresult rfl, htree⟩
  · rintro ⟨s', hrun, htree⟩
    rw [hrun]
    exact ⟨rfl, htree⟩

namespace Course

/-- The state when the artifacts are found. -/
def discovered (c : Course) (o : RunOptions) : RunState :=
  ({ tree := c.cleared } : RunState).acted o.artifactDir
    (discoveryActions o.artifactDir (c.cleared.discovery o.artifactDir)) c.cleared

/-- The state when every unit but that of the deployments is written. -/
def written (c : Course) (o : RunOptions) : RunState :=
  (c.discovered o).acted o.outputDir c.artifactActions c.early

/-- The state when the manifests are read. -/
def informed (c : Course) (o : RunOptions) : RunState :=
  { c.written o with
    log := (c.written o).log ++ (Manifests.ofDir c.early o.deploymentDir o.networks).1 }

theorem report_informed (c : Course) (o : RunOptions) :
    (c.informed o).report =
      { generated := (c.bound ++ c.shared).map SourceUnit.fileName
        failures := (c.cleared.discovery o.artifactDir).failures ++
          c.artifactActions.filterMap Action.failure? } := by
  have hdiscovered : (c.discovered o).report =
      { failures := (c.cleared.discovery o.artifactDir).failures } := by
    unfold discovered
    rw [report_discovered]; rfl
  have hwritten : (c.informed o).report = (c.written o).report := rfl
  rw [hwritten, written, report_artifactActions, hdiscovered]
  rfl

end Course

/-- A run that ends with a report has a course. -/
theorem exists_course {o : RunOptions} {t : FileTree} {report : Report}
    (h : (codegen o).Returns { tree := t } report s') :
    ∃ c : Course, c.IsOf o t s'.tree report := by
  rw [codegen_eq] at h
  obtain ⟨⟨p, artifacts⟩, s₃, hfind, h⟩ := Run.returns_bind_iff.1 h
  obtain ⟨cleared, hcleared, hproject, hartifacts, hs₃⟩ := returns_find_iff.1 hfind
  obtain ⟨_, s₄, hall, h⟩ := Run.returns_bind_iff.1 h
  obtain ⟨early, hearly, hs₄⟩ := returns_performAll_iff.1 hall
  obtain ⟨m, s₅, hmanifests, h⟩ := Run.returns_bind_iff.1 h
  obtain ⟨log, hm, hs₅⟩ := returns_readManifests_iff.1 hmanifests
  obtain ⟨imports, himports, hfinal, hreport⟩ := exists_returns_finish_iff.1 ⟨s', h, rfl⟩
  -- All that the run read and decided on its way makes up the course.
  let c : Course := ⟨cleared, p, artifacts, early, m, imports⟩
  have hdiscovered : s₃ = c.discovered o := hs₃
  have hwritten : s₄ = c.written o := by rw [hs₄, hdiscovered]; rfl
  have hm' : Manifests.ofDir early o.deploymentDir o.networks = (log, .ok m) := by
    rw [hwritten] at hm
    exact hm
  have hinformed : s₅ = c.informed o := by
    rw [hs₅, hwritten]
    unfold Course.informed
    rw [show c.early = early from rfl, hm']
  rw [hdiscovered] at hearly
  rw [hinformed] at himports hfinal hreport
  refine ⟨c, hcleared, hproject, hartifacts, c.units_artifactActions ▸ hearly,
    congrArg Prod.snd hm', himports, hfinal, ?_⟩
  rw [hreport, c.report_informed, c.fileNames_units]
  rfl

/-- A course is that of a run that ends with a report. -/
theorem Course.IsOf.returns {c : Course} {o : RunOptions} {t final : FileTree} {report : Report}
    (h : c.IsOf o t final report) :
    ∃ s', (codegen o).Returns { tree := t } report s' ∧ s'.tree = final := by
  have hfinish : ∃ s', (finish o c.manifests c.contracts).Returns (c.informed o) report s' ∧
      s'.tree = final := by
    refine exists_returns_finish_iff.2 ⟨c.imports, h.imports, h.final, ?_⟩
    rw [h.report, c.report_informed, c.fileNames_units]
    rfl
  obtain ⟨s', hfinish, htree⟩ := hfinish
  refine ⟨s', ?_, htree⟩
  rw [codegen_eq]
  refine Run.returns_bind_iff.2 ⟨⟨c.project, c.artifacts⟩, c.discovered o,
    returns_find_iff.2 ⟨c.cleared, h.cleared, h.project, h.artifacts, rfl⟩, ?_⟩
  refine Run.returns_bind_iff.2 ⟨(), c.written o,
    returns_performAll_iff.2 ⟨c.early, c.units_artifactActions.symm ▸ h.early, rfl⟩, ?_⟩
  exact Run.returns_bind_iff.2 ⟨c.manifests, c.informed o,
    returns_readManifests_iff.2 ⟨_, Prod.ext rfl h.manifests, rfl⟩, hfinish⟩

/-- **The courses of runs that end with a report.** -/
theorem codegen_eq_ok_iff {o : RunOptions} {t final : FileTree} {report : Report} :
    ((codegen o).outcome t).result = .ok report ∧ ((codegen o).outcome t).tree = final ↔
      ∃ c : Course, c.IsOf o t final report := by
  rw [outcome_eq_ok_iff]
  constructor
  · rintro ⟨s', h, rfl⟩
    exact exists_course h
  · rintro ⟨c, h⟩
    exact h.returns

end TypedBindings
