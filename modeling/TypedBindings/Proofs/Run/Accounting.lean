import TypedBindings.Proofs.Run.Clearing
import TypedBindings.Proofs.Run.Isolation
import TypedBindings.Proofs.TypeScript.Names
import TypedBindings.Proofs.TypeScript.Printing

/-!
# Every artifact is accounted for

Of each artifact's file a run makes one thing: the unit of a contract, a member of the unit of the
scripts, or a failure. What is written and reported is that, sorted out and in the order of names.

* `Fate`: what becomes of an artifact's file.
* `Course.AccountsFor`: a report accounts for every artifact.
* `Course.IsOf.writesDeployments_eq`: when the unit of the deployments is written.
* `artifacts_accounted_for`: every report of a run does.
-/

namespace TypedBindings

open TypeScript FileTree

/-! ## What becomes of a file -/

/-- What becomes of an artifact's file. -/
inductive Fate where
  /-- The unit of its contract is written. -/
  | unit (unit : SourceUnit)
  /-- Its script is bound in the unit of the scripts. -/
  | script (script : Abi.Script × String)
  | unreadable (failure : UnitFailure)
  | unboundContract (failure : UnitFailure)
  | unboundScript (failure : UnitFailure)

namespace Fate

def unit? : Fate → Option SourceUnit
  | .unit u => some u
  | _ => none

def script? : Fate → Option (Abi.Script × String)
  | .script s => some s
  | _ => none

def unreadable? : Fate → Option UnitFailure
  | .unreadable f => some f
  | _ => none

def unboundContract? : Fate → Option UnitFailure
  | .unboundContract f => some f
  | _ => none

def unboundScript? : Fate → Option UnitFailure
  | .unboundScript f => some f
  | _ => none

/-- Nothing has two fates, and everything has one. -/
theorem length_eq (fates : List Fate) :
    fates.length = (fates.filterMap unit?).length + (fates.filterMap script?).length +
      ((fates.filterMap unreadable?).length + (fates.filterMap unboundContract?).length +
        (fates.filterMap unboundScript?).length) := by
  induction fates with
  | nil => rfl
  | cons x rest ih =>
    have hcons : ∀ f : Fate → Option UnitFailure, ((x :: rest).filterMap f).length =
        (f x).toList.length + (rest.filterMap f).length := by
      intro f
      rw [List.filterMap_cons]
      cases f x <;> simp [Nat.add_comm]
    rw [List.length_cons, ih, hcons, hcons, hcons, List.filterMap_cons, List.filterMap_cons]
    cases x <;> simp [unit?, script?, unreadable?, unboundContract?, unboundScript?] <;> omega

end Fate

/-- What becomes of an artifact. -/
def FoundArtifact.fate (p : Project) (a : FoundArtifact) : Fate :=
  match a.artifact with
  | .contract c =>
    match bindContract p c a.path with
    | .ok u => .unit u
    | .error fault => .unboundContract ⟨c.name, .binding fault⟩
  | .script s =>
    match bindScript s with
    | .ok abi => .script (abi, a.path)
    | .error fault => .unboundScript ⟨s.name, .binding fault⟩

/-- What becomes of a file below the directory of artifacts. -/
def FileTree.FoundFile.fate (p : Project) (dir : String) (x : FoundFile) : Fate :=
  match readArtifact dir x with
  | .ok a => FoundArtifact.fate p ⟨x.path, a⟩
  | .error fault => .unreadable ⟨x.path, .file fault⟩

/-- Puts things in the order of their names; those of one name keep their order. -/
def byName {α : Type} (name : α → String) (items : List α) : List α :=
  items.mergeSort fun a b => decide (name a ≤ name b)

/-- Sorting by names is well defined. -/
theorem byName_trans {α : Type} (name : α → String) (a b c : α)
    (hab : decide (name a ≤ name b) = true) (hbc : decide (name b ≤ name c) = true) :
    decide (name a ≤ name c) = true :=
  decide_eq_true (String.le_trans (of_decide_eq_true hab) (of_decide_eq_true hbc))

theorem byName_total {α : Type} (name : α → String) (a b : α) :
    (decide (name a ≤ name b) || decide (name b ≤ name a)) = true := by
  rw [Bool.or_eq_true, decide_eq_true_iff, decide_eq_true_iff]
  exact String.le_total _ _

section Fates

variable {p : Project} {dir : String}

/-- The fate of an artifact says what the run takes from it. -/
theorem FoundArtifact.fate_eq (p : Project) (a : FoundArtifact) :
    (a.fate p).unit? = boundUnit? p a ∧ (a.fate p).script? = boundScript? a ∧
      (a.fate p).unreadable? = none ∧ (a.fate p).unboundContract? = a.contractFailure? p ∧
      (a.fate p).unboundScript? = a.scriptFailure? := by
  unfold fate boundUnit? boundScript? contractFailure? scriptFailure?
  cases a.artifact with
  | contract c =>
    dsimp only
    cases hbind : bindContract p c a.path <;> exact ⟨rfl, rfl, rfl, rfl, rfl⟩
  | script s =>
    dsimp only
    cases hbind : bindScript s <;> exact ⟨rfl, rfl, rfl, rfl, rfl⟩

/-- What is picked out of the fates of files is picked out of the artifacts in them. -/
theorem filterMap_fates {α : Type} {pick : Fate → Option α} {pick' : FoundArtifact → Option α}
    (hread : ∀ a : FoundArtifact, pick (a.fate p) = pick' a)
    (hunread : ∀ f, pick (.unreadable f) = none) (files : List FoundFile) :
    (files.map (FoundFile.fate p dir)).filterMap pick =
      (files.filterMap (FoundFile.artifact? dir)).filterMap pick' := by
  rw [List.filterMap_map, List.filterMap_filterMap]
  refine List.filterMap_congr fun x _ => ?_
  unfold FoundFile.artifact?
  rw [Function.comp_apply]
  unfold FoundFile.fate
  cases readArtifact dir x with
  | error fault => exact hunread _
  | ok a => exact hread _

/-- The files that cannot be read, in the order in which they are found. -/
theorem filterMap_unreadable (p : Project) (files : List FoundFile) :
    (files.map (FoundFile.fate p dir)).filterMap Fate.unreadable? =
      files.filterMap (FoundFile.unreadable? dir) := by
  rw [List.filterMap_map]
  refine List.filterMap_congr fun x _ => ?_
  rw [Function.comp_apply]
  unfold FoundFile.fate FoundFile.unreadable?
  cases readArtifact dir x with
  | error fault => rfl
  | ok a => exact (FoundArtifact.fate_eq p _).2.2.1

/-- What is picked out of the sorted artifacts comes in the order of names. -/
theorem filterMap_sort {α : Type} {pick : FoundArtifact → Option α} {name : α → String}
    (hname : ∀ a x, pick a = some x → name x = a.artifact.name) (artifacts : List FoundArtifact) :
    (Discovery.sort artifacts).filterMap pick = byName name (artifacts.filterMap pick) := by
  refine filterMap_mergeSort (byName_trans fun a : FoundArtifact => a.artifact.name)
    (byName_total _) (byName_trans name) (byName_total name) (fun a b x y hx hy => ?_) artifacts
  rw [hname a x hx, hname b y hy]

/-- A unit has the name of its contract. -/
theorem name_of_boundUnit? {a : FoundArtifact} {u : SourceUnit} (h : boundUnit? p a = some u) :
    u.name = a.artifact.name := by
  unfold boundUnit? at h
  cases ha : a.artifact with
  | script s => rw [ha] at h; cases h
  | contract c =>
    rw [ha] at h
    dsimp only at h
    cases hbind : bindContract p c a.path with
    | error fault => rw [hbind] at h; cases h
    | ok v =>
      rw [hbind] at h
      cases h
      exact name_of_bindContract hbind

theorem name_of_boundScript? {a : FoundArtifact} {s : Abi.Script × String}
    (h : boundScript? a = some s) : s.1.name = a.artifact.name := by
  unfold boundScript? at h
  cases ha : a.artifact with
  | contract c => rw [ha] at h; cases h
  | script script =>
    rw [ha] at h
    dsimp only at h
    unfold bindScript at h
    cases hlower : script.lower with
    | error fault => rw [hlower] at h; cases h
    | ok abi =>
      rw [hlower] at h
      cases h
      exact Artifact.Script.name_of_lower hlower

/-- A failure has the name of its contract. -/
theorem name_of_contractFailure? {a : FoundArtifact} {f : UnitFailure}
    (h : a.contractFailure? p = some f) : f.name = a.artifact.name := by
  unfold FoundArtifact.contractFailure? at h
  cases ha : a.artifact with
  | script s => rw [ha] at h; cases h
  | contract c =>
    rw [ha] at h
    dsimp only at h
    cases hbind : bindContract p c a.path <;> rw [hbind] at h <;> cases h
    rfl

theorem name_of_scriptFailure? {a : FoundArtifact} {f : UnitFailure}
    (h : a.scriptFailure? = some f) : f.name = a.artifact.name := by
  unfold FoundArtifact.scriptFailure? at h
  cases ha : a.artifact with
  | contract c => rw [ha] at h; cases h
  | script s =>
    rw [ha] at h
    dsimp only at h
    cases hbind : bindScript s <;> rw [hbind] at h <;> cases h
    rfl

end Fates

/-! ## What the shared units name -/

/-- The elements of an array literal. -/
def TypeScript.Expr.elements? : Expr → Option (List Expr)
  | .array elements => some elements
  | _ => none

/-- The elements of each array literal in a unit. -/
def TypeScript.SourceUnit.arrays (u : SourceUnit) : List (List Expr) :=
  (u.items.flatMap Item.parts).filterMap Expr.elements?

/-- The name of an exported variable. -/
def TypeScript.Item.exportedVariable? : Item → Option String
  | .variableDecl declarator _ => if declarator.isExported then some declarator.name else none
  | _ => none

/-- The names of the variables that a unit exports. -/
def TypeScript.SourceUnit.exportedVariables (u : SourceUnit) : List String :=
  u.items.filterMap Item.exportedVariable?

theorem arrays_idents (names : List String) :
    (partsOfAll (names.map .ident)).filterMap Expr.elements? = [] := by
  induction names with
  | nil => rfl
  | cons name rest ih => exact ih

/-- **The hashes are looked up in the contracts**, in their order. -/
theorem arrays_contractsUnit (contracts : List String) :
    (Binding.contractsUnit contracts).arrays = [contracts.map .ident] := by
  have himport : (if contracts.isEmpty then [] else
      [Item.importDecl ⟨.names contracts, "."⟩]).flatMap Item.parts = [] := by
    split <;> rfl
  have hassign : ((Expr.array (contracts.map .ident)).parts).filterMap Expr.elements? =
      [contracts.map .ident] := by
    rw [Expr.parts, List.filterMap_cons, arrays_idents]
    rfl
  have hbody : (partsOfBlock (Binding.contractByCodeHash contracts).body).filterMap
      Expr.elements? = ((Expr.array (contracts.map .ident)).parts).filterMap Expr.elements? := by
    simp [Binding.contractByCodeHash, partsOfBlock, Stmt.parts, Expr.parts, Expr.isUndefined,
      Expr.callMethod, partsOfAll, Binding.hashMatches, List.filterMap_cons, Expr.elements?]
  have hitems : (Binding.contractsUnit contracts).items.flatMap Item.parts =
      .undefined :: partsOfBlock (Binding.contractByCodeHash contracts).body := by
    unfold Binding.contractsUnit
    dsimp only
    rw [List.flatMap_append, List.flatMap_append, himport]
    simp [Item.parts, Expr.parts]
  unfold SourceUnit.arrays
  rw [hitems, List.filterMap_cons]
  exact hbody.trans hassign

/-- The contracts are exported in their order, if that is the order of names. -/
theorem reExports_indexUnit {contracts : List String} (h : contracts.Pairwise (· ≤ ·)) :
    (Binding.indexUnit contracts).reExports =
      contracts.map ("./" ++ ·) ++ ["./" ++ Binding.scriptsUnitName] := by
  have hsorted : contracts.mergeSort (fun a b => decide (a ≤ b)) = contracts :=
    List.mergeSort_of_pairwise (h.imp fun hab => decide_eq_true hab)
  unfold SourceUnit.reExports Binding.indexUnit
  dsimp only
  rw [hsorted, List.filterMap_append, List.filterMap_map]
  congr 1
  exact congrFun List.filterMap_eq_map' contracts

/-- **The unit of the scripts** has a variable for each script, in the order of names. -/
theorem exportedVariables_scriptsUnit (scripts : List (Abi.Script × String)) :
    (Binding.scriptsUnit scripts).exportedVariables =
      (byName (fun s => s.1.name) scripts).map fun s => s.1.name := by
  have hnone : ∀ {item : Abi.Script × String → Item} {sorted : List (Abi.Script × String)},
      (∀ s, (item s).exportedVariable? = none) →
        (sorted.map item).filterMap Item.exportedVariable? = [] := by
    intro item sorted h
    rw [List.filterMap_map, List.filterMap_eq_nil_iff]
    exact fun s _ => h s
  unfold SourceUnit.exportedVariables Binding.scriptsUnit
  dsimp only
  rw [List.cons_append, List.filterMap_cons, List.filterMap_append, hnone, List.filterMap_map]
  · exact congrFun List.filterMap_eq_map' _
  · exact fun _ => rfl

/-! ## When the unit of the deployments is written -/

/-- Whether there is anything to say about deployments: their directory was named, or a network has
a manifest. -/
def RunOptions.hasDeployments (o : RunOptions) (t : FileTree) : Bool :=
  o.wantsDeployments || o.networks.any fun n => t.hasEntry (n.manifestPath o.deploymentDir)

theorem FileTree.hasEntry_writeAll {t t' : FileTree} {dir path : String} {units : List SourceUnit}
    (h : t.writeAll dir units = some t') (hp : t.hasEntry path = true) :
    t'.hasEntry path = true := by
  induction units generalizing t with
  | nil => cases h; exact hp
  | cons u rest ih =>
    rw [FileTree.writeAll] at h
    obtain ⟨t₁, hu, h⟩ := Option.bind_eq_some_iff.1 h
    exact ih h (hasEntry_write hu hp)

theorem TypeScript.SourceUnit.render_of_hasBanner {u : SourceUnit} (h : u.hasBanner = true) :
    ∃ rest, u.render.toList = '/' :: rest := by
  obtain ⟨rest, hrest⟩ := SourceUnit.bannerText_prefix_render h
  have hbanner : bannerText.toList = '/' :: bannerText.toList.tail := by decide +kernel
  exact ⟨bannerText.toList.tail ++ rest, by rw [← hrest, hbanner]; rfl⟩

namespace Course

variable {c : Course} {o : RunOptions} {t final : FileTree} {report : Report}

/-- The scripts with a binding. -/
def scripts (c : Course) : List (Abi.Script × String) := c.artifacts.filterMap boundScript?

theorem hasBanner_of_mem {u : SourceUnit} (hu : u ∈ c.bound ++ c.shared) : u.hasBanner = true := by
  rcases List.mem_append.1 hu with hu | hu
  · obtain ⟨f, -, a, -, hbind⟩ := mem_bound.1 hu
    unfold bindContract at hbind
    obtain ⟨abi, -, hbind⟩ := exists_of_bind_eq_ok hbind
    unfold Binding.contractUnit? at hbind
    split at hbind <;> cases hbind
    rfl
  · simp only [shared, List.mem_cons, List.not_mem_nil, or_false] at hu
    rcases hu with rfl | rfl | rfl | rfl <;> rfl

/-- No manifest is made by a run: what it writes holds no records. -/
theorem IsOf.hasEntry_manifest (h : c.IsOf o t final report) {n : Network} (hn : n ∈ o.networks) :
    c.early.hasEntry (n.manifestPath o.deploymentDir) =
      c.cleared.hasEntry (n.manifestPath o.deploymentDir) := by
  refine Bool.eq_iff_iff.2 ⟨fun hearly => ?_, FileTree.hasEntry_writeAll h.early⟩
  obtain ⟨text, records, htext, hrecords⟩ := Manifests.text_of_ofDir h.manifests hn hearly
  have hread := FileTree.readText_writeAll h.early (n.manifestPath o.deploymentDir)
  cases hlast : (c.cleared.writersTo o.outputDir (c.bound ++ c.shared)
      (n.manifestPath o.deploymentDir)).getLast? with
  | some u =>
    -- The manifest would be the text of a unit, but such a text begins with a comment.
    rw [hlast, Option.elim_some, htext] at hread
    obtain ⟨hu, -⟩ := List.mem_filter.1 (List.mem_of_getLast? hlast)
    obtain ⟨rest, hrest⟩ := SourceUnit.render_of_hasBanner (hasBanner_of_mem hu)
    rw [Option.some.inj hread, Manifest.ofText_of_slash hrest] at hrecords
    cases hrecords
  | none =>
    rw [hlast, Option.elim_none, htext] at hread
    unfold FileTree.readText at hread
    unfold FileTree.hasEntry
    cases hlookup : c.cleared.lookup (n.manifestPath o.deploymentDir) with
    | none => rw [hlookup] at hread; cases hread
    | some e => rfl

/-- **When the unit of the deployments is written.** -/
theorem IsOf.writesDeployments_eq (h : c.IsOf o t final report) :
    writesDeployments o c.manifests = o.hasDeployments c.cleared := by
  have hnetworks := Manifests.networks_of_ofDir h.manifests
  have hempty : c.manifests.isEmpty =
      !(o.networks.any fun n => c.cleared.hasEntry (n.manifestPath o.deploymentDir)) := by
    have hsame : (o.networks.filter fun n => c.early.hasEntry (n.manifestPath o.deploymentDir)) =
        o.networks.filter fun n => c.cleared.hasEntry (n.manifestPath o.deploymentDir) :=
      List.filter_congr fun n hn => h.hasEntry_manifest hn
    have hmap : c.manifests.isEmpty = (c.manifests.networks.map Manifest.network).isEmpty := by
      rw [List.isEmpty_map]; rfl
    rw [hmap, hnetworks, hsame, Bool.eq_iff_iff]
    simp [List.filter_eq_nil_iff]
  unfold writesDeployments RunOptions.hasDeployments
  rw [hempty, Bool.not_not, Bool.or_comm]

theorem names_shared (c : Course) (o : RunOptions) :
    (c.shared ++ c.deployments o).map SourceUnit.name = c.sharedNames o := by
  have hunits := names_units c o
  unfold units at hunits
  rw [List.append_assoc, List.map_append, names_bound] at hunits
  exact List.append_cancel_left hunits

/-- No unit takes the file of a shared one, which are written last, unless a link is in the way. -/
theorem IsOf.readText_shared (h : c.IsOf o t final report) (hlinks : c.HasNoLinks o)
    {u : SourceUnit} (hu : u ∈ c.shared ++ c.deployments o) :
    final.readText (Path.join o.outputDir u.fileName) = some u.render := by
  have hunits : c.units o = c.bound ++ (c.shared ++ c.deployments o) := by
    unfold units
    rw [List.append_assoc]
  have hwrite := h.writeAll
  rw [hunits, FileTree.writeAll_append] at hwrite
  obtain ⟨mid, hmid, hwrite⟩ := Option.bind_eq_some_iff.1 hwrite
  have hnodup : (c.sharedNames o).Nodup := by
    unfold sharedNames
    split <;> decide
  have hslash : ∀ name ∈ c.sharedNames o, '/' ∉ name.toList := by
    unfold sharedNames
    split <;> decide
  obtain ⟨base, hbase⟩ := h.outputDir
  -- No link stands under these names, so each unit goes to a place of its own.
  have hplace : ∀ v ∈ c.shared ++ c.deployments o,
      mid.place? (Path.join o.outputDir v.fileName) = some (base ++ [v.fileName]) := by
    intro v hv
    have hname : v.name ∈ c.sharedNames o := by
      rw [← names_shared]; exact List.mem_map_of_mem hv
    obtain ⟨place, hp⟩ := FileTree.place?_of_writeAll hwrite v hv
    rw [FileTree.place?_writeAll hmid] at hp ⊢
    obtain ⟨base', hbase', hin⟩ := FileTree.place?_join (isDirPath_outputDir o)
      (isEntryName_fileName (hslash _ hname)) hp
    cases hbase.symm.trans hbase'
    rw [hp, hin fun target => hlinks base hbase v (hunits ▸ List.mem_append_right _ hv) target]
  obtain ⟨v, hv, hsame, hlast⟩ : ∃ v ∈ c.shared ++ c.deployments o,
      decide (mid.place? (Path.join o.outputDir v.fileName) =
        mid.place? (Path.join o.outputDir u.fileName)) = true ∧
      (mid.writersTo o.outputDir (c.shared ++ c.deployments o)
        (Path.join o.outputDir u.fileName)).getLast? = some v :=
    exists_getLast?_filter hu (decide_eq_true rfl)
  have hsame := of_decide_eq_true hsame
  rw [hplace v hv, hplace u hu] at hsame
  have hname : v.name = u.name := fileName_inj.1 (by simpa using hsame)
  rw [← names_shared] at hnodup
  cases List.inj_on_of_nodup_map hnodup hv hu hname
  rw [FileTree.readText_writeAll hwrite, hlast, Option.elim_some]

end Course

/-! ## Accounting -/

/-- What becomes of each file of an artifact, in the order of the walk. -/
def Course.fates (c : Course) (o : RunOptions) : List Fate :=
  (candidates c.cleared o.artifactDir).map (FoundFile.fate c.project o.artifactDir)

/-- **A report accounts for every artifact.** What is written and reported is what becomes of the
files of artifacts, sorted out. -/
structure Course.AccountsFor (c : Course) (o : RunOptions) (t final : FileTree)
    (report : Report) : Prop where
  /-- The files are those that were there before the run. -/
  files : ∀ base, c.cleared.canonical? o.artifactDir = some base →
    (t.hasEntry o.outputDir = true → t.canonical? o.artifactDir = some base) →
    candidates c.cleared o.artifactDir = t.candidatesAt base
  total : (candidates c.cleared o.artifactDir).length =
    c.bound.length + c.scripts.length + report.failures.length
  bound : c.bound = byName SourceUnit.name ((c.fates o).filterMap Fate.unit?)
  scripts : c.scripts = byName (fun s => s.1.name) ((c.fates o).filterMap Fate.script?)
  /-- Files that cannot be read come first, in the order of the walk. -/
  failures : report.failures = (c.fates o).filterMap Fate.unreadable? ++
    byName UnitFailure.name ((c.fates o).filterMap Fate.unboundContract?) ++
    byName UnitFailure.name ((c.fates o).filterMap Fate.unboundScript?)
  /-- The units that are written, in their order. -/
  written : c.cleared.writeAll o.outputDir
    (c.bound ++ [Binding.scriptsUnit c.scripts, Binding.contractsUnit c.contracts,
      Binding.utilsUnit, Binding.indexUnit c.contracts] ++ c.deployments o) = some final
  generated : report.generated = c.contracts.map (· ++ ".ts") ++
    ["scripts.ts", "contracts.ts", "utils.ts", "index.ts"] ++
    if o.hasDeployments c.cleared then ["deployments.ts"] else []
  contracts : c.contracts = c.bound.map SourceUnit.name
  ordered : c.contracts.Pairwise (· ≤ ·)
  /-- What stands in the files of the shared units. -/
  texts : c.HasNoLinks o → ∀ u ∈ c.shared ++ c.deployments o,
    final.readText (Path.join o.outputDir u.fileName) = some u.render
  exported : (Binding.scriptsUnit c.scripts).exportedVariables = c.scripts.map fun s => s.1.name
  hashes : (Binding.contractsUnit c.contracts).arrays = [c.contracts.map .ident]
  reExports : (Binding.indexUnit c.contracts).reExports =
    c.contracts.map ("./" ++ ·) ++ ["./scripts"]

namespace Course

variable {c : Course} {o : RunOptions} {t final : FileTree} {report : Report}

/-- What is picked out of the artifacts is picked out of the fates, in the order of names. -/
theorem IsOf.filterMap_eq (h : c.IsOf o t final report) {α : Type}
    {pick : FoundArtifact → Option α} {pick' : Fate → Option α} {name : α → String}
    (hread : ∀ a : FoundArtifact, pick' (a.fate c.project) = pick a)
    (hunread : ∀ f, pick' (.unreadable f) = none)
    (hname : ∀ a x, pick a = some x → name x = a.artifact.name) :
    c.artifacts.filterMap pick = byName name ((c.fates o).filterMap pick') := by
  unfold fates
  rw [filterMap_fates hread hunread, h.artifacts]
  unfold FileTree.discovery
  rw [Discovery.artifacts_ofFiles, filterMap_sort hname]

/-- The bound units are the units of all files, sorted by name. -/
theorem IsOf.bound_eq (h : c.IsOf o t final report) :
    c.bound = byName SourceUnit.name ((c.fates o).filterMap Fate.unit?) :=
  h.filterMap_eq (fun a => (a.fate_eq c.project).1) (fun _ => rfl) fun _ _ => name_of_boundUnit?

theorem IsOf.scripts_eq (h : c.IsOf o t final report) :
    c.scripts = byName (fun s => s.1.name) ((c.fates o).filterMap Fate.script?) :=
  h.filterMap_eq (fun a => (a.fate_eq c.project).2.1) (fun _ => rfl)
    fun _ _ => name_of_boundScript?

/-- Failures come in three groups: unreadable files, contracts, scripts. -/
theorem IsOf.failures_eq (h : c.IsOf o t final report) :
    report.failures = (c.fates o).filterMap Fate.unreadable? ++
      byName UnitFailure.name ((c.fates o).filterMap Fate.unboundContract?) ++
      byName UnitFailure.name ((c.fates o).filterMap Fate.unboundScript?) := by
  have hunread : (c.cleared.discovery o.artifactDir).failures =
      (c.fates o).filterMap Fate.unreadable? := by
    unfold fates FileTree.discovery
    rw [filterMap_unreadable, Discovery.failures_ofFiles]
  have hcontracts : c.artifacts.filterMap (FoundArtifact.contractFailure? c.project) =
      byName UnitFailure.name ((c.fates o).filterMap Fate.unboundContract?) :=
    h.filterMap_eq (fun a => (a.fate_eq c.project).2.2.2.1) (fun _ => rfl)
      fun _ _ => name_of_contractFailure?
  have hscripts : c.artifacts.filterMap FoundArtifact.scriptFailure? =
      byName UnitFailure.name ((c.fates o).filterMap Fate.unboundScript?) :=
    h.filterMap_eq (fun a => (a.fate_eq c.project).2.2.2.2) (fun _ => rfl)
      fun _ _ => name_of_scriptFailure?
  rw [h.failures]
  unfold Discovery.allFailures
  rw [← h.artifacts, hunread, hcontracts, hscripts]

theorem IsOf.ordered (h : c.IsOf o t final report) : c.contracts.Pairwise (· ≤ ·) := by
  have hsorted := List.pairwise_mergeSort (byName_trans SourceUnit.name)
    (byName_total SourceUnit.name) ((c.fates o).filterMap Fate.unit?)
  rw [← names_bound, List.pairwise_map, h.bound_eq]
  exact hsorted.imp fun hab => of_decide_eq_true hab

/-- Every candidate is counted once. -/
theorem IsOf.total (h : c.IsOf o t final report) :
    (candidates c.cleared o.artifactDir).length =
      c.bound.length + c.scripts.length + report.failures.length := by
  have hlength := Fate.length_eq (c.fates o)
  have hfiles : (c.fates o).length = (candidates c.cleared o.artifactDir).length :=
    List.length_map _
  rw [h.bound_eq, h.scripts_eq, h.failures_eq]
  unfold byName
  simp only [List.length_append, List.length_mergeSort]
  omega

/-- What a run generates, in the order in which it is written. -/
theorem IsOf.generated_eq (h : c.IsOf o t final report) :
    report.generated = c.contracts.map (· ++ ".ts") ++
      ["scripts.ts", "contracts.ts", "utils.ts", "index.ts"] ++
      if o.hasDeployments c.cleared then ["deployments.ts"] else [] := by
  have hfiles : (c.units o).map SourceUnit.fileName =
      (c.contracts ++ c.sharedNames o).map (· ++ ".ts") := by
    rw [← names_units, List.map_map]
    exact List.map_congr_left fun u _ => fileName_eq u
  rw [h.report, hfiles, List.map_append, List.append_assoc]
  unfold sharedNames
  rw [h.writesDeployments_eq]
  split <;> rfl

/-- All that is stated of a run's account, for every whole run. -/
theorem IsOf.accountsFor (h : c.IsOf o t final report) : c.AccountsFor o t final report where
  files _ hbase hsame := candidates_cleared h.cleared hbase hsame
  total := h.total
  bound := h.bound_eq
  scripts := h.scripts_eq
  failures := h.failures_eq
  written := h.writeAll
  generated := h.generated_eq
  contracts := c.names_bound.symm
  ordered := h.ordered
  texts hlinks _ hu := h.readText_shared hlinks hu
  exported := by
    have hsorted : byName (fun s => s.1.name) c.scripts = c.scripts := by
      rw [h.scripts_eq]
      exact List.mergeSort_of_pairwise
        (List.pairwise_mergeSort (byName_trans _) (byName_total _) _)
    rw [exportedVariables_scriptsUnit, hsorted]
  hashes := arrays_contractsUnit c.contracts
  reExports := reExports_indexUnit h.ordered

end Course

/-- **Every artifact is accounted for** in the report of a run. -/
theorem artifacts_accounted_for {o : RunOptions} {t : FileTree} {report : Report}
    (h : ((codegen o).outcome t).result = .ok report) :
    ∃ c : Course, c.IsOf o t ((codegen o).outcome t).tree report ∧
      c.AccountsFor o t ((codegen o).outcome t).tree report := by
  obtain ⟨c, hc⟩ := codegen_eq_ok_iff.1 ⟨h, rfl⟩
  exact ⟨c, hc, hc.accountsFor⟩

theorem artifacts_accounted_for_two_folders : ∃ report,
    ((codegen hereOptions).outcome twoFoldersTree).result = .ok report ∧
      ∃ c : Course, c.IsOf hereOptions twoFoldersTree
          ((codegen hereOptions).outcome twoFoldersTree).tree report ∧
        c.AccountsFor hereOptions twoFoldersTree
          ((codegen hereOptions).outcome twoFoldersTree).tree report := by
  obtain ⟨early, report, hcourse⟩ := twoFolders_isOf
  have hok := (codegen_eq_ok_iff.2 ⟨_, hcourse⟩).1
  exact ⟨report, hok, artifacts_accounted_for hok⟩

end TypedBindings
