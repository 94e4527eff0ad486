import TypedBindings.Binding.Deployments
import TypedBindings.Binding.Script
import TypedBindings.Binding.Shared
import TypedBindings.Deployment.Directory
import TypedBindings.Run.Discovery
import TypedBindings.TypeScript.Render

/-!
# The generation run

A run clears the output directory, reads the project and its artifacts, and writes a unit for each
contract and the shared units. What a contract or script lacks is reported and does not stop the
others; what goes wrong with the output directory, the project file or a manifest ends the run.

* `contractActions`, `scriptActions`, `sharedActions`: what is done for artifacts, decided before
  anything is written.
* `Run.find`, `Run.bindArtifacts`, `Run.writeShared`: the phases of a run.
* `codegen`: the whole run.
* `runCommand`: the run that a command line asks for.
-/

namespace TypedBindings

/-- What a run has done so far. -/
structure RunState where
  tree : FileTree
  log : List Log.Event := []
  report : Report := {}

/-- A step of a run. What was done before a fault stays done. -/
abbrev Run (α : Type) := ExceptT FileFault (StateM RunState) α

namespace Run

def say (e : Log.Event) : Run Unit := modify fun s => { s with log := s.log ++ [e] }

def fail (f : UnitFailure) : Run Unit :=
  modify fun s => { s with report := { s.report with failures := s.report.failures ++ [f] } }

/-- Writes a unit into a directory. -/
def writeUnit (dir : String) (u : TypeScript.SourceUnit) : Run Unit := do
  let path := Path.join dir u.fileName
  match (← get).tree.write path (some u.render) with
  | none => throw ⟨.write, path, .io⟩
  | some tree =>
    modify fun s => { s with tree }
    say ⟨.debug, .run, s!"Wrote {path}"⟩
    modify fun s =>
      { s with report := { s.report with generated := s.report.generated ++ [u.fileName] } }

end Run

/-! ## Actions -/

/-- One thing that is done for an artifact. -/
inductive Action where
  | say (event : Log.Event)
  | fail (failure : UnitFailure)
  | write (unit : TypeScript.SourceUnit)

def Action.perform (dir : String) : Action → Run Unit
  | .say e => Run.say e
  | .fail f => Run.fail f
  | .write u => Run.writeUnit dir u

/-- Does some things in their order. -/
def performAll (dir : String) : List Action → Run Unit
  | [] => pure ()
  | a :: rest => do
    a.perform dir
    performAll dir rest

/-- The unit of a contract. -/
def bindContract (p : Project) (c : Artifact.Contract) (path : String) :
    Except Binding.Fault TypeScript.SourceUnit := do
  Binding.contractUnit? p (← c.lower.mapError .lowering) path

def bindScript (s : Artifact.Script) : Except Binding.Fault Abi.Script :=
  s.lower.mapError .lowering

/-- What is done when a binding cannot be generated. -/
def failed (name kind : String) (fault : Binding.Fault) : List Action :=
  [.say (Log.failure "Failed" s!"{name} {kind} binding"),
    .say ⟨.error, .run, s!"Failed to generate {name}: {fault.message}"⟩,
    .fail ⟨name, .binding fault⟩]

/-- What is done for the contract of an artifact. -/
def contractActions (p : Project) (f : FoundArtifact) : List Action :=
  match f.artifact with
  | .script _ => []
  | .contract c =>
    match bindContract p c f.path with
    | .ok u =>
      [.say (Log.success "Generating" s!"{c.name} contract binding"), .write u]
    | .error fault => failed c.name "contract" fault

/-- The name of an artifact's contract, if it has a binding. -/
def boundContract? (p : Project) (f : FoundArtifact) : Option String :=
  match f.artifact with
  | .script _ => none
  | .contract c => (bindContract p c f.path).toOption.map fun _ => c.name

/-- What is done for the script of an artifact, before the unit of the scripts. -/
def scriptActions (f : FoundArtifact) : List Action :=
  match f.artifact with
  | .contract _ => []
  | .script s =>
    match bindScript s with
    | .ok _ => []
    | .error fault => failed s.name "script" fault

/-- The script of an artifact, if it has a binding. -/
def boundScript? (f : FoundArtifact) : Option (Abi.Script × String) :=
  match f.artifact with
  | .contract _ => none
  | .script s => (bindScript s).toOption.map fun abi => (abi, f.path)

/-- Says how many scripts have a binding. -/
def announceScripts (count : Nat) : Action :=
  .say (Log.success "Generating" s!"{count} script binding(s)")

/-- The units that every run writes. -/
def sharedUnits (contracts : List String) (scripts : List (Abi.Script × String)) :
    List TypeScript.SourceUnit :=
  [Binding.scriptsUnit scripts, Binding.contractsUnit contracts, Binding.utilsUnit,
    Binding.indexUnit contracts]

def sharedActions (contracts : List String) (scripts : List (Abi.Script × String)) :
    List Action :=
  announceScripts scripts.length :: (sharedUnits contracts scripts).map .write

/-- What is done for a task without a binding. -/
def skipped (taskId : String) : Action :=
  .say (Log.warning (s!"skipping deployed contract `{taskId}`: " ++
    s!"no binding was generated for {TaskId.typeName taskId}"))

/-- What is done for the deployments. -/
def deploymentActions (m : Manifests) (imports : List Binding.ManifestImport)
    (contracts : List String) : List Action :=
  (Binding.skippedTasks m contracts).map skipped ++
    [.write (Binding.deploymentsUnit m imports contracts)]

/-! ## Where manifests are imported from -/

/-- The place of a path. -/
def canonical (t : FileTree) (path : String) : Except FileFault (List String) :=
  match t.canonical? path with
  | some place => .ok place
  | none => .error ⟨.resolve, path, .io⟩

/-- Where units in a directory import manifests from. -/
def manifestImports (t : FileTree) (m : Manifests) (dir : String) :
    Except FileFault (List Binding.ManifestImport) := do
  let here ← canonical t dir
  m.networks.mapM fun n => do
    let place ← canonical t n.path
    return ⟨n.network, Path.specifier (Path.relative here place)⟩

/-! ## The run -/

namespace Run

/-- Leaves the output directory empty. -/
def clear (dir : String) : Run Unit := do
  let tree := (← get).tree
  if tree.hasEntry dir then
    match tree.removeDirAll dir with
    | none => throw ⟨.clear, dir, .io⟩
    | some tree => modify fun s => { s with tree }
  let (tree, isThere) := (← get).tree.createDirAll dir
  modify fun s => { s with tree }
  if !isThere then throw ⟨.create, dir, .io⟩

/-- Reads the project file of a directory. -/
def readProject (dir : String) : Run Project := do
  let path := Path.join dir Project.fileName
  match (← get).tree.readText path with
  | none => throw ⟨.readProject, path, .io⟩
  | some text =>
    match Project.ofText text with
    | .ok p => return p
    | .error fault => throw ⟨.parseProject, path, .json fault⟩

/-- Reads the artifacts of a directory and reports those that cannot be read. -/
def discover (dir : String) : Run (List FoundArtifact) := do
  let d := Discovery.ofFiles dir (candidates (← get).tree dir)
  performAll dir (d.failures.flatMap fun f =>
    [.say ⟨.error, .run, f.cause.message⟩, .fail f])
  say ⟨.info, .run, s!"Found {d.artifacts.length} artifact(s) in {dir}"⟩
  return d.artifacts

/-- Reads the manifests of a directory. -/
def readManifests (dir : String) (networks : List Network) : Run Manifests := do
  let (log, result) := Manifests.ofDir (← get).tree dir networks
  modify fun s => { s with log := s.log ++ log }
  match result with
  | .ok m => return m
  | .error fault => throw fault

/-- Writes the unit of the deployments. -/
def writeDeployments (dir : String) (m : Manifests) (contracts : List String) : Run Unit := do
  say (Log.success "Generating" "deployments")
  match manifestImports (← get).tree m dir with
  | .error fault => throw fault
  | .ok imports => performAll dir (deploymentActions m imports contracts)

end Run

/-- What a run generates bindings from. -/
structure Sources where
  project : Project
  artifacts : List FoundArtifact

namespace Sources

/-- The contracts that have a binding. -/
def contracts (s : Sources) : List String := s.artifacts.filterMap (boundContract? s.project)

/-- The scripts that have a binding. -/
def scripts (s : Sources) : List (Abi.Script × String) := s.artifacts.filterMap boundScript?

end Sources

namespace Run

/-- Makes the output directory ready and finds what there is to generate bindings from. -/
def find (o : RunOptions) : Run Sources := do
  clear o.outputDir
  let project ← readProject o.artifactDir
  let artifacts ← discover o.artifactDir
  return ⟨project, artifacts⟩

/-- Writes the units of the contracts, and reports the contracts and scripts without a binding. -/
def bindArtifacts (o : RunOptions) (s : Sources) : Run Unit :=
  performAll o.outputDir (s.artifacts.flatMap (contractActions s.project) ++
    s.artifacts.flatMap scriptActions ++ [announceScripts s.scripts.length])

/-- Writes the shared units, which name only what was bound, and the unit of the deployments. -/
def writeShared (o : RunOptions) (s : Sources) : Run Report := do
  let dir := o.outputDir
  performAll dir ((sharedUnits s.contracts s.scripts).map .write)
  let manifests ← readManifests o.deploymentDir o.networks
  if !manifests.isEmpty || o.wantsDeployments then
    writeDeployments dir manifests s.contracts
  let report := (← get).report
  say ⟨.info, .run,
    s!"Generated {report.generated.length} file(s) with {report.failures.length} failure(s)"⟩
  return report

end Run

/-- Generates the bindings of every artifact. -/
def codegen (o : RunOptions) : Run Report := do
  let sources ← Run.find o
  Run.bindArtifacts o sources
  Run.writeShared o sources

/-- The directory of the project that a command is about. -/
def Command.projectDir (c : Command) (t : FileTree) : String :=
  c.path.getD (Path.ofNames t.workDir)

/-- Runs a command. -/
def runCommand (c : Command) : Run Report := do
  let tree := (← get).tree
  let dir := c.projectDir tree
  match Settings.ofDir tree dir with
  | .error fault => throw fault
  | .ok settings => codegen (.resolve c settings dir)

/-- How a run ends. -/
structure Outcome where
  tree : FileTree
  log : List Log.Event
  result : Except FileFault Report

/-- Carries a run out on a tree. -/
def Run.outcome (run : Run Report) (t : FileTree) : Outcome :=
  let (result, s) := run.run.run { tree := t }
  ⟨s.tree, s.log, result⟩

end TypedBindings
