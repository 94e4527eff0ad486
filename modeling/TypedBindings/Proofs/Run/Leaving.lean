import TypedBindings.Proofs.Run.OneWriter

/-!
# What a run leaves behind

A run can end at many points, and what was done before stays done. What every write keeps holds of
the tree that a run leaves, wherever it ends.

* `Run.Leaves`: what holds of the tree in which a step ends, whether it goes through or not.
* `Run.Leaves.bind`: steps one after the other.
* `afterClearing`: a run once the output directory is clear.
* `leaves_afterClearing`: what the writes of plain names keep, that part of a run keeps.
-/

namespace TypedBindings

open TypeScript

namespace Run

variable {α β : Type} {s s' : RunState} {I : FileTree → Prop}

/-- What holds of the tree in which a step ends, whether it goes through or not. -/
def Leaves (I : FileTree → Prop) (x : Run α) (s : RunState) : Prop := I (x.run.run s).2.tree

/-- A run that returns has left the invariant as every other run has. -/
theorem Leaves.of_returns {x : Run α} {a : α} (h : x.Leaves I s) (hx : x.Returns s a s') :
    I s'.tree := by
  unfold Leaves at h
  rw [hx] at h
  exact h

/-- What two steps leave: if the first one does not go through, the second one is not taken. -/
theorem Leaves.bind {x : Run α} {f : α → Run β} (hx : x.Leaves I s)
    (hf : ∀ a s', x.Returns s a s' → (f a).Leaves I s') : (x >>= f).Leaves I s := by
  have hrun : (x >>= f).run.run s =
      StateT.run (ExceptT.bindCont f (x.run.run s).1) (x.run.run s).2 := rfl
  unfold Leaves at hx hf ⊢
  rw [hrun]
  cases h : x.run.run s with
  | mk r s' =>
    rw [h] at hx
    cases r with
    | error fault => exact hx
    | ok a => exact hf a s' h

theorem leaves_throw {fault : FileFault} (h : I s.tree) : (throw fault : Run α).Leaves I s := h

theorem leaves_get_bind_iff {f : RunState → Run α} :
    (get >>= f : Run α).Leaves I s ↔ (f s).Leaves I s := Iff.rfl

theorem leaves_modify_bind_iff {f : RunState → RunState} {g : Unit → Run α} :
    (modify f >>= g : Run α).Leaves I s ↔ (g ()).Leaves I (f s) := Iff.rfl

end Run

variable {s : RunState} {I : FileTree → Prop} {dir : String}

/-! ## Actions -/

/-- Writing a unit into a directory keeps something true of a tree. -/
def KeptByWrite (I : FileTree → Prop) (dir : String) (u : SourceUnit) : Prop :=
  ∀ t t', I t → t.write (Path.join dir u.fileName) (some u.render) = some t' → I t'

/-- Writing a unit keeps what its write keeps. -/
theorem leaves_writeUnit {u : SourceUnit} (hu : KeptByWrite I dir u) (h : I s.tree) :
    (Run.writeUnit dir u).Leaves I s := by
  unfold Run.writeUnit
  rw [Run.leaves_get_bind_iff]
  cases hw : s.tree.write (Path.join dir u.fileName) (some u.render) with
  | none => exact Run.leaves_throw h
  | some tree =>
    have htree : I tree := hu s.tree tree h hw
    exact htree

/-- An action writes one unit at most. -/
theorem leaves_perform {a : Action} (ha : ∀ u, a.unit? = some u → KeptByWrite I dir u)
    (h : I s.tree) : (a.perform dir).Leaves I s := by
  cases a with
  | say e => exact h
  | fail f => exact h
  | write u => exact leaves_writeUnit (ha u rfl) h

/-- **What actions leave**: whatever each of their writes keeps. -/
theorem leaves_performAll {actions : List Action}
    (hall : ∀ u ∈ actions.filterMap Action.unit?, KeptByWrite I dir u) (h : I s.tree) :
    (performAll dir actions).Leaves I s := by
  induction actions generalizing s with
  | nil => exact h
  | cons a rest ih =>
    have ha : (a.perform dir).Leaves I s := leaves_perform
      (fun u hu => hall u (List.mem_filterMap.2 ⟨a, List.mem_cons_self, hu⟩)) h
    refine Run.Leaves.bind ha fun r s' hr => ih (fun u hu => ?_) (ha.of_returns hr)
    obtain ⟨b, hb, hu⟩ := List.mem_filterMap.1 hu
    exact hall u (List.mem_filterMap.2 ⟨b, List.mem_cons_of_mem _ hb, hu⟩)

/-! ## Steps that write nothing -/

/-- Reading does not touch the tree, whether it succeeds or not. -/
theorem leaves_readProject (h : I s.tree) : (Run.readProject dir).Leaves I s := by
  unfold Run.readProject
  rw [Run.leaves_get_bind_iff]
  cases s.tree.readText (Path.join dir Project.fileName) with
  | none => exact h
  | some text =>
    dsimp only
    cases Project.ofText text <;> exact h

theorem leaves_discover (h : I s.tree) : (Run.discover dir).Leaves I s := by
  have hreports : (performAll dir ((s.tree.discovery dir).failures.flatMap fun f =>
      [.say ⟨.error, .run, f.cause.message⟩, .fail f])).Leaves I s :=
    leaves_performAll (by rw [units_reports]; exact fun _ hu => absurd hu List.not_mem_nil) h
  unfold Run.discover
  rw [Run.leaves_get_bind_iff]
  refine hreports.bind fun r s' hr => ?_
  have htree : I s'.tree := hreports.of_returns hr
  exact htree

theorem leaves_readManifests {networks : List Network} (h : I s.tree) :
    (Run.readManifests dir networks).Leaves I s := by
  unfold Run.readManifests
  rw [Run.leaves_get_bind_iff]
  obtain ⟨log, result⟩ := Manifests.ofDir s.tree dir networks
  dsimp only
  rw [Run.leaves_modify_bind_iff]
  cases result <;> exact h

/-! ## The run behind clearing -/

/-- What a run does once the output directory is clear. -/
def afterClearing (o : RunOptions) : Run Report := do
  let project ← Run.readProject o.artifactDir
  let artifacts ← Run.discover o.artifactDir
  let found : Sources := ⟨project, artifacts⟩
  performAll o.outputDir (artifacts.flatMap (contractActions project) ++
    artifacts.flatMap scriptActions ++ sharedActions found.contracts found.scripts)
  let manifests ← Run.readManifests o.deploymentDir o.networks
  finish o manifests found.contracts

/-- A run clears the output directory before anything else. -/
theorem codegen_eq_clear (o : RunOptions) :
    codegen o = Run.clear o.outputDir >>= fun _ => afterClearing o := by
  rw [codegen_eq]
  unfold Run.find afterClearing
  simp only [bind_assoc, pure_bind]

/-- The last part of a run writes the deployments, whichever imports they have. -/
theorem leaves_finish {o : RunOptions} {m : Manifests} {contracts : List String}
    (hall : ∀ imports, KeptByWrite I o.outputDir (Binding.deploymentsUnit m imports contracts))
    (h : I s.tree) : (finish o m contracts).Leaves I s := by
  have hwrite : (Run.writeDeployments o.outputDir m contracts).Leaves I s := by
    unfold Run.writeDeployments Run.say
    rw [Run.leaves_modify_bind_iff, Run.leaves_get_bind_iff]
    dsimp only
    cases manifestImports s.tree m o.outputDir with
    | error fault => exact h
    | ok imports =>
      refine leaves_performAll (fun u hu => ?_) h
      have hunits : (deploymentActions m imports contracts).filterMap Action.unit? =
          [Binding.deploymentsUnit m imports contracts] :=
        units_writeDeploymentsActions m imports contracts
      rw [hunits] at hu
      rw [List.mem_singleton.1 hu]
      exact hall imports
  unfold finish
  split
  · refine hwrite.bind fun r s' hr => ?_
    have htree : I s'.tree := hwrite.of_returns hr
    exact htree
  · exact h

/-- **What a run leaves** once the output directory is clear: whatever the writes of units keep
whose names have no slash. -/
theorem leaves_afterClearing {o : RunOptions}
    (hwrite : ∀ u : SourceUnit, '/' ∉ u.name.toList → KeptByWrite I o.outputDir u)
    (hnames : ∀ f ∈ (s.tree.discovery o.artifactDir).artifacts, ∀ a, f.artifact = .contract a →
      '/' ∉ a.name.toList)
    (h : I s.tree) : (afterClearing o).Leaves I s := by
  have hread : (Run.readProject o.artifactDir).Leaves I s := leaves_readProject h
  refine hread.bind fun p s₁ hp => ?_
  obtain ⟨-, rfl⟩ := returns_readProject_iff.1 hp
  have hdiscover : (Run.discover o.artifactDir).Leaves I s₁ := leaves_discover h
  refine hdiscover.bind fun artifacts s₂ ha => ?_
  obtain ⟨rfl, -⟩ := returns_discover_iff.1 ha
  -- The units that are written before the manifests are read do not depend on those.
  let c : Course :=
    ⟨s₁.tree, p, (s₁.tree.discovery o.artifactDir).artifacts, s₁.tree, ⟨[]⟩, []⟩
  have hunits : ∀ u ∈ c.bound ++ c.shared, '/' ∉ u.name.toList := by
    intro u hu
    rcases List.mem_append.1 hu with hu | hu
    · obtain ⟨f, hf, a, ha, hbind⟩ := Course.mem_bound.1 hu
      rw [name_of_bindContract hbind]
      exact hnames f hf a ha
    · simp only [Course.shared, List.mem_cons, List.not_mem_nil, or_false] at hu
      rcases hu with rfl | rfl | rfl | rfl <;>
        simp only [Binding.scriptsUnit, Binding.contractsUnit, Binding.utilsUnit,
          Binding.indexUnit] <;> decide
  have hall : (performAll o.outputDir c.artifactActions).Leaves I s₂ :=
    leaves_performAll (fun u hu => hwrite u (hunits u (c.units_artifactActions ▸ hu)))
      (hdiscover.of_returns ha)
  refine hall.bind fun r s₃ hr => ?_
  have hmanifests : (Run.readManifests o.deploymentDir o.networks).Leaves I s₃ :=
    leaves_readManifests (hall.of_returns hr)
  refine hmanifests.bind fun m s₄ hm => ?_
  have hslash : '/' ∉ Binding.deploymentsUnitName.toList := by decide
  exact leaves_finish (fun imports => hwrite _ hslash) (hmanifests.of_returns hm)

end TypedBindings
