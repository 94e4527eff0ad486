import TypedBindings.Proofs.Files.Places
import TypedBindings.Run.Generation

/-!
# The steps of a run that goes through

* `Run.Returns`: a step ends without a fault, with a result and a state.
* `Run.returns_bind_iff`: steps one after the other.
* `returns_performAll_iff`: actions write their units, and log and report what they say.
* `FileTree.readText_writeAll`: of several units that are written to one place, the last one is read.
-/

namespace TypedBindings

open TypeScript

namespace Run

variable {α β : Type} {s s' : RunState}

/-- A step ends without a fault, with a result and a state. -/
def Returns (x : Run α) (s : RunState) (a : α) (s' : RunState) : Prop := x.run.run s = (.ok a, s')

/-- A step that goes through is followed by the next one. -/
theorem run_bind_of_returns {x : Run α} {a : α} (h : x.Returns s a s')
    (g : α → Run β) : (x >>= g).run.run s = (g a).run.run s' := by
  have hrun : (x >>= g).run.run s =
      StateT.run (ExceptT.bindCont g (x.run.run s).1) (x.run.run s).2 := rfl
  rw [hrun, h]
  rfl

/-- A step that ends with a fault is followed by none. -/
theorem run_bind_of_fault {x : Run α} {fault : FileFault}
    (h : x.run.run s = (.error fault, s')) (g : α → Run β) :
    (x >>= g).run.run s = (.error fault, s') := by
  have hrun : (x >>= g).run.run s =
      StateT.run (ExceptT.bindCont g (x.run.run s).1) (x.run.run s).2 := rfl
  rw [hrun, h]
  rfl

theorem returns_bind_iff {x : Run α} {f : α → Run β} {b : β} :
    (x >>= f).Returns s b s' ↔ ∃ a s₁, x.Returns s a s₁ ∧ (f a).Returns s₁ b s' := by
  have hrun : (x >>= f).run.run s =
      StateT.run (ExceptT.bindCont f (x.run.run s).1) (x.run.run s).2 := rfl
  unfold Returns
  rw [hrun]
  cases hx : x.run.run s with
  | mk r s₁ =>
    cases r with
    | error fault =>
      refine iff_of_false (fun h => by cases h) ?_
      rintro ⟨a, s₂, h, -⟩
      cases h
    | ok a =>
      constructor
      · intro h
        exact ⟨a, s₁, rfl, h⟩
      · rintro ⟨a', s₂, h, hf⟩
        cases h
        exact hf

theorem returns_pure_iff {a b : α} : (pure a : Run α).Returns s b s' ↔ b = a ∧ s' = s := by
  show ((Except.ok a, s) : Except FileFault α × RunState) = (.ok b, s') ↔ _
  simp [eq_comm]

theorem returns_throw_iff {fault : FileFault} {a : α} :
    (throw fault : Run α).Returns s a s' ↔ False := by
  refine iff_of_false (fun h => ?_) id
  cases h

theorem returns_get_bind_iff {f : RunState → Run α} {a : α} :
    (get >>= f : Run α).Returns s a s' ↔ (f s).Returns s a s' := Iff.rfl

theorem returns_modify_iff {f : RunState → RunState} {u : Unit} :
    (modify f : Run Unit).Returns s u s' ↔ s' = f s := by
  show ((Except.ok (), f s) : Except FileFault Unit × RunState) = (.ok u, s') ↔ _
  simp [eq_comm]

theorem returns_modify_bind_iff {f : RunState → RunState} {g : Unit → Run α} {a : α} :
    (modify f >>= g : Run α).Returns s a s' ↔ (g ()).Returns (f s) a s' := Iff.rfl

end Run

/-! ## Writing several units -/

namespace FileTree

/-- Writes units into a directory, from the first to the last. -/
def writeAll (dir : String) : List SourceUnit → FileTree → Option FileTree
  | [], t => some t
  | u :: rest, t => (t.write (Path.join dir u.fileName) (some u.render)).bind (writeAll dir rest)

variable {t t' : FileTree} {dir : String}

theorem writeAll_append {units more : List SourceUnit} :
    t.writeAll dir (units ++ more) = (t.writeAll dir units).bind (writeAll dir more) := by
  induction units generalizing t with
  | nil => rfl
  | cons u rest ih =>
    rw [List.cons_append, writeAll, writeAll]
    cases t.write (Path.join dir u.fileName) (some u.render) with
    | none => rfl
    | some t₁ => exact ih

/-- Every path of a unit that was written leads to a place. -/
theorem place?_of_writeAll {units : List SourceUnit} (h : t.writeAll dir units = some t') :
    ∀ u ∈ units, ∃ place, t.place? (Path.join dir u.fileName) = some place := by
  induction units generalizing t with
  | nil => exact fun u hu => absurd hu List.not_mem_nil
  | cons v rest ih =>
    rw [writeAll] at h
    obtain ⟨t₁, hv, h⟩ := Option.bind_eq_some_iff.1 h
    intro u hu
    rcases List.mem_cons.1 hu with rfl | hu
    · obtain ⟨place, hplace, -, -⟩ := write_eq_some hv
      exact ⟨place, hplace⟩
    · obtain ⟨place, hplace⟩ := ih h u hu
      exact ⟨place, by rw [← hplace, place?_write hv]⟩

/-- The units that are written to the place of a path. -/
def writersTo (t : FileTree) (dir : String) (units : List SourceUnit) (path : String) :
    List SourceUnit :=
  units.filter fun u => t.place? (Path.join dir u.fileName) = t.place? path

/-- **What is read after several writes**: of the units that were written to the place of a path,
the last one. -/
theorem readText_writeAll {units : List SourceUnit} (h : t.writeAll dir units = some t')
    (path : String) :
    t'.readText path =
      ((t.writersTo dir units path).getLast?).elim (t.readText path) (fun u => some u.render) := by
  induction units generalizing t with
  | nil => cases h; rfl
  | cons u rest ih =>
    rw [writeAll] at h
    obtain ⟨t₁, hu, h⟩ := Option.bind_eq_some_iff.1 h
    have hrest : t₁.writersTo dir rest path = t.writersTo dir rest path := by
      unfold writersTo
      simp only [place?_write hu]
    rw [ih h, hrest, readText_write hu]
    unfold writersTo
    by_cases hp : t.place? (Path.join dir u.fileName) = t.place? path
    · rw [List.filter_cons_of_pos (by simpa using hp), if_pos hp.symm, List.getLast?_cons]
      cases (rest.filter fun u => t.place? (Path.join dir u.fileName) = t.place? path).getLast? <;>
        rfl
    · rw [List.filter_cons_of_neg (by simpa using hp), if_neg (Ne.symm hp)]

/-- Several writes keep the place of every path. -/
theorem place?_writeAll {units : List SourceUnit} (h : t.writeAll dir units = some t')
    (path : String) : t'.place? path = t.place? path := by
  induction units generalizing t with
  | nil => cases h; rfl
  | cons u rest ih =>
    rw [writeAll] at h
    obtain ⟨t₁, hu, h⟩ := Option.bind_eq_some_iff.1 h
    rw [ih h, place?_write hu]

/-- Units that can be written to one tree can be written to one that agrees with it except at a
place. -/
theorem AgreesOff.writeAll {place : List String} {u : FileTree} (h : t.AgreesOff place u)
    {units : List SourceUnit} (hw : t.writeAll dir units = some t') :
    ∃ u', u.writeAll dir units = some u' ∧ t'.AgreesOff place u' := by
  induction units generalizing t u with
  | nil => cases hw; exact ⟨u, rfl, h⟩
  | cons v rest ih =>
    rw [FileTree.writeAll] at hw
    obtain ⟨t₁, hv, hw⟩ := Option.bind_eq_some_iff.1 hw
    obtain ⟨u₁, hu₁, h₁⟩ := h.write hv
    obtain ⟨u', hu', h'⟩ := ih h₁ hw
    exact ⟨u', by rw [FileTree.writeAll, hu₁]; exact hu', h'⟩

end FileTree

/-! ## Actions -/

/-- The unit that an action writes. -/
def Action.unit? : Action → Option SourceUnit
  | .write u => some u
  | _ => none

/-- The failure that an action reports. -/
def Action.failure? : Action → Option UnitFailure
  | .fail f => some f
  | _ => none

/-- What an action logs. -/
def Action.log (dir : String) : Action → List Log.Event
  | .say e => [e]
  | .fail _ => []
  | .write u => [⟨.debug, .run, s!"Wrote {Path.join dir u.fileName}"⟩]

/-- The state that actions lead to, given the tree that their writes lead to. -/
def RunState.acted (s : RunState) (dir : String) (actions : List Action) (tree : FileTree) :
    RunState where
  tree
  log := s.log ++ actions.flatMap (Action.log dir)
  report :=
    { generated := s.report.generated ++ (actions.filterMap Action.unit?).map SourceUnit.fileName
      failures := s.report.failures ++ actions.filterMap Action.failure? }

variable {s s' : RunState} {dir : String}

theorem acted_nil (s : RunState) (dir : String) : s.acted dir [] s.tree = s := by
  simp [RunState.acted]

theorem acted_append (s : RunState) (dir : String) (actions more : List Action)
    (tree tree' : FileTree) :
    (s.acted dir actions tree).acted dir more tree' = s.acted dir (actions ++ more) tree' := by
  simp [RunState.acted, List.append_assoc]

theorem acted_say (s : RunState) (dir : String) (e : Log.Event) :
    s.acted dir [.say e] s.tree = { s with log := s.log ++ [e] } := by
  simp [RunState.acted, Action.log, List.filterMap_cons, Action.unit?, Action.failure?]

theorem acted_fail (s : RunState) (dir : String) (f : UnitFailure) :
    s.acted dir [.fail f] s.tree =
      { s with report := { s.report with failures := s.report.failures ++ [f] } } := by
  simp [RunState.acted, Action.log, List.filterMap_cons, Action.unit?, Action.failure?]

theorem acted_write (s : RunState) (dir : String) (u : SourceUnit) (tree : FileTree) :
    s.acted dir [.write u] tree =
      { tree
        log := s.log ++ [⟨.debug, .run, s!"Wrote {Path.join dir u.fileName}"⟩]
        report := { s.report with generated := s.report.generated ++ [u.fileName] } } := by
  simp [RunState.acted, Action.log, List.filterMap_cons, Action.unit?, Action.failure?]

theorem returns_writeUnit_iff {u : SourceUnit} {r : Unit} :
    (Run.writeUnit dir u).Returns s r s' ↔
      ∃ tree, s.tree.write (Path.join dir u.fileName) (some u.render) = some tree ∧
        s' = s.acted dir [.write u] tree := by
  unfold Run.writeUnit
  rw [Run.returns_get_bind_iff]
  cases hw : s.tree.write (Path.join dir u.fileName) (some u.render) with
  | none =>
    dsimp only
    rw [Run.returns_throw_iff]
    simp
  | some tree =>
    dsimp only
    unfold Run.say
    rw [Run.returns_modify_bind_iff, Run.returns_modify_bind_iff, Run.returns_modify_iff]
    simp only [Option.some.injEq, exists_eq_left', acted_write]

theorem returns_perform_iff {a : Action} {r : Unit} :
    (a.perform dir).Returns s r s' ↔
      ∃ tree, s.tree.writeAll dir ([a].filterMap Action.unit?) = some tree ∧
        s' = s.acted dir [a] tree := by
  cases a with
  | say e =>
    show (Run.say e).Returns s r s' ↔ ∃ tree, some s.tree = some tree ∧ _
    unfold Run.say
    rw [Run.returns_modify_iff, ← acted_say s dir]
    simp
  | fail f =>
    show (Run.fail f).Returns s r s' ↔ ∃ tree, some s.tree = some tree ∧ _
    unfold Run.fail
    rw [Run.returns_modify_iff, ← acted_fail s dir]
    simp
  | write u =>
    show (Run.writeUnit dir u).Returns s r s' ↔ ∃ tree, s.tree.writeAll dir [u] = some tree ∧ _
    have hsingle : s.tree.writeAll dir [u] =
        s.tree.write (Path.join dir u.fileName) (some u.render) := Option.bind_fun_some _
    rw [returns_writeUnit_iff, hsingle]

/-- **What actions do.** They go through exactly if their units can be written. -/
theorem returns_performAll_iff {actions : List Action} {r : Unit} :
    (performAll dir actions).Returns s r s' ↔
      ∃ tree, s.tree.writeAll dir (actions.filterMap Action.unit?) = some tree ∧
        s' = s.acted dir actions tree := by
  induction actions generalizing s with
  | nil =>
    show (pure () : Run Unit).Returns s r s' ↔ ∃ tree, some s.tree = some tree ∧ _
    rw [Run.returns_pure_iff]
    constructor
    · rintro ⟨-, rfl⟩
      exact ⟨_, rfl, (acted_nil _ _).symm⟩
    · rintro ⟨tree, h, rfl⟩
      cases h
      exact ⟨rfl, acted_nil _ _⟩
  | cons a rest ih =>
    show (a.perform dir >>= fun _ => performAll dir rest).Returns s r s' ↔ _
    -- The first action writes before the rest, so its unit comes first.
    have hunits : (a :: rest).filterMap Action.unit? =
        [a].filterMap Action.unit? ++ rest.filterMap Action.unit? := by
      rw [← List.filterMap_append]; rfl
    rw [Run.returns_bind_iff, hunits, FileTree.writeAll_append]
    constructor
    · rintro ⟨_, s₁, ha, hrest⟩
      obtain ⟨tree, htree, rfl⟩ := returns_perform_iff.1 ha
      obtain ⟨tree', htree', rfl⟩ := ih.1 hrest
      exact ⟨tree', by rw [htree]; exact htree', acted_append s dir [a] rest tree tree'⟩
    · rintro ⟨tree', htree', rfl⟩
      obtain ⟨tree, htree, hrest⟩ := Option.bind_eq_some_iff.1 htree'
      exact ⟨(), s.acted dir [a] tree, returns_perform_iff.2 ⟨tree, htree, rfl⟩,
        ih.2 ⟨tree', hrest, (acted_append s dir [a] rest tree tree').symm⟩⟩

end TypedBindings
