import TypedBindings.Proofs.Deployment.Merging
import TypedBindings.Proofs.Run.Steps

/-!
# Dropping ids from merged lists

Dropping ids after lists are merged gives what merging the shortened lists gives, so the tasks that
the deployments unit deals with are those of the records, restricted to bound contracts.

* `MergedIds.retain_merge`: dropping commutes with merging.
* `MergedIds.retain_append_removed_perm`: no id is lost.
* `Binding.boundSchema_eq`: the schema of the deployments unit.
* `warnings_deploymentActions`: what a run warns about when it writes that unit.
* `filtering_commutes`: all of this together.
-/

namespace TypedBindings

namespace MergedIds

variable {keep : String → Bool}

theorem required_merge_filter (keep : String → Bool) (sets : List (List String)) :
    (merge (sets.map (List.filter keep))).required = (merge sets).required.filter keep := by
  cases sets with
  | nil => rfl
  | cons first rest =>
    simp only [List.map_cons, merge]
    rw [← distinct_filter, List.filter_filter, List.filter_filter]
    congr 1
    refine List.filter_congr fun id _ => ?_
    -- An id that is dropped counts on neither side, and one that is kept is in the same lists.
    cases hid : keep id with
    | false => simp
    | true =>
      have hsame : ((rest.map (List.filter keep)).all fun set => set.contains id) =
          rest.all fun set => set.contains id := by
        rw [List.all_map]
        refine congrArg (fun p => rest.all p) (funext fun set => ?_)
        simp [hid]
      rw [hsame, Bool.and_true, Bool.true_and]

theorem optional_merge_filter (keep : String → Bool) (sets : List (List String)) :
    (merge (sets.map (List.filter keep))).optional = (merge sets).optional.filter keep := by
  rw [optional_eq, optional_eq, required_merge_filter, ← List.filter_flatten, distinct_filter,
    List.filter_filter, List.filter_filter]
  refine List.filter_congr fun id _ => ?_
  cases hid : keep id with
  | false => simp
  | true => simp [hid]

/-- **Dropping ids commutes with merging.** -/
theorem retain_merge (keep : String → Bool) (sets : List (List String)) :
    (merge sets).retain keep = merge (sets.map (List.filter keep)) := by
  unfold retain
  rw [← required_merge_filter, ← optional_merge_filter]

/-- Ids are kept or dropped, and none is lost or doubled. -/
theorem retain_append_removed_perm (keep : String → Bool) (ids : MergedIds) :
    ((ids.retain keep).all ++ ids.removed keep).Perm ids.all := by
  have hsplit : ∀ xs : List String, (xs.filter keep ++ xs.filter (!keep ·)).Perm xs :=
    List.filter_append_perm keep
  have hall : (ids.retain keep).all = ids.all.filter keep := by
    unfold all retain
    rw [List.filter_append]
  have hremoved : ids.removed keep = ids.all.filter (!keep ·) := by
    unfold all removed
    rw [List.filter_append]
  rw [hall, hremoved]
  exact hsplit ids.all

end MergedIds

namespace Binding

/-- The schema of the deployments unit: of the tasks of contracts, those of bound ones, merged over
the records of all networks. -/
theorem boundSchema_eq (m : Manifests) (contracts : List String) :
    boundSchema m contracts =
      ⟨.merge (m.records.map fun r => (r.contracts.map Prod.fst).filter (isBound contracts)),
        m.schema.scripts⟩ := by
  have hcontracts : (boundSchema m contracts).contracts =
      (MergedIds.merge (m.records.map fun r => r.contracts.map Prod.fst)).retain
        (isBound contracts) := rfl
  rw [MergedIds.retain_merge, List.map_map] at hcontracts
  exact congrArg (fun ids => Schema.mk ids m.schema.scripts) hcontracts

end Binding

/-! ## Warnings -/

/-- The warning about a task without a binding. -/
def skipWarning (taskId : String) : Log.Event :=
  Log.warning (s!"skipping deployed contract `{taskId}`: " ++
    s!"no binding was generated for {TaskId.typeName taskId}")

/-- The warnings among some events. -/
def warnings (events : List Log.Event) : List Log.Event := events.filter fun e => e.level = .warn

theorem warnings_append (events more : List Log.Event) :
    warnings (events ++ more) = warnings events ++ warnings more := List.filter_append ..

/-- Events that are said before other things are done. -/
theorem run_performAll_say (dir : String) (events : List Log.Event) (rest : List Action)
    (s : RunState) :
    (performAll dir (events.map Action.say ++ rest)).run.run s =
      (performAll dir rest).run.run { s with log := s.log ++ events } := by
  induction events generalizing s with
  | nil => rw [List.append_nil]; rfl
  | cons e more ih =>
    have hstep : (performAll dir ((e :: more).map Action.say ++ rest)).run.run s =
        (performAll dir (more.map Action.say ++ rest)).run.run { s with log := s.log ++ [e] } := rfl
    rw [hstep, ih]
    simp only [List.append_assoc, List.singleton_append]

/-- Writing a unit is no reason for a warning, whether it goes through or not. -/
theorem warnings_write (dir : String) (u : TypeScript.SourceUnit) (s : RunState) :
    warnings ((performAll dir [.write u]).run.run s).2.log = warnings s.log := by
  have hsole : performAll dir [.write u] = Run.writeUnit dir u := bind_pure_unit
  rw [hsole]
  have hget : ∀ f : RunState → Run Unit, (get >>= f).run.run s = (f s).run.run s := fun _ => rfl
  unfold Run.writeUnit
  rw [hget]
  cases s.tree.write (Path.join dir u.fileName) (some u.render) with
  | none => rfl
  | some tree =>
    have hlog : warnings (s.log ++ [⟨.debug, .run, s!"Wrote {Path.join dir u.fileName}"⟩]) =
        warnings s.log := by
      rw [warnings_append]
      exact List.append_nil _
    exact hlog

/-- **What is warned about** when the deployments unit is written: each task that it leaves out. -/
theorem warnings_deploymentActions (m : Manifests) (imports : List Binding.ManifestImport)
    (contracts : List String) (dir : String) (s : RunState) :
    warnings ((performAll dir (deploymentActions m imports contracts)).run.run s).2.log =
      warnings s.log ++ (Binding.skippedTasks m contracts).map skipWarning := by
  have hactions : deploymentActions m imports contracts =
      ((Binding.skippedTasks m contracts).map skipWarning).map Action.say ++
        [.write (Binding.deploymentsUnit m imports contracts)] := by
    unfold deploymentActions
    rw [List.map_map]
    rfl
  have hwarnings : warnings ((Binding.skippedTasks m contracts).map skipWarning) =
      (Binding.skippedTasks m contracts).map skipWarning := by
    refine List.filter_eq_self.2 fun e he => ?_
    obtain ⟨id, -, rfl⟩ := List.mem_map.1 he
    rfl
  rw [hactions, run_performAll_say, warnings_write]
  dsimp only
  rw [warnings_append, hwarnings]

/-- **Filtering after merging is merging what is filtered.** What is dropped are the rejected
required ids and then the rejected optional ones, and with what is kept these are all ids. So the
deployments unit deals with the tasks of all records, restricted to bound contracts, and a run that
writes it warns about each task that was dropped, in their order. -/
theorem filtering_commutes (sets : List (List String)) (keep : String → Bool) (m : Manifests)
    (imports : List Binding.ManifestImport) (contracts : List String) (dir : String)
    (s : RunState) :
    (MergedIds.merge sets).retain keep = .merge (sets.map (List.filter keep)) ∧
    (MergedIds.merge sets).removed keep =
      (MergedIds.merge sets).required.filter (!keep ·) ++
        (MergedIds.merge sets).optional.filter (!keep ·) ∧
    (((MergedIds.merge sets).retain keep).all ++ (MergedIds.merge sets).removed keep).Perm
      (MergedIds.merge sets).all ∧
    Binding.boundSchema m contracts =
      ⟨.merge (m.records.map fun r =>
          (r.contracts.map Prod.fst).filter (Binding.isBound contracts)), m.schema.scripts⟩ ∧
    warnings ((performAll dir (deploymentActions m imports contracts)).run.run s).2.log =
      warnings s.log ++
        (m.schema.contracts.removed (Binding.isBound contracts)).map skipWarning :=
  ⟨MergedIds.retain_merge keep sets, rfl, MergedIds.retain_append_removed_perm keep _,
    Binding.boundSchema_eq m contracts, warnings_deploymentActions m imports contracts dir s⟩

end TypedBindings
