import TypedBindings.Proofs.Binding.Allocation
import TypedBindings.Proofs.Run.OneWriter
import TypedBindings.Run.Limited

/-!
# Runs that a list ends

A list that cannot be allocated is no fault of one artifact: it ends the run. The bindings of all
contracts are made before a unit is written, so one contract that is too large leaves the run
without a single unit.

* `EndsAsContract`, `EndsAsScript`: the artifacts that end a run.
* `returns_none_iff`: the runs that end without a report.
* `run_codegenWithin`: every other run is that of `codegen`.
* `overflow_iff_long`: what is built, and what ends the run.
* `longest_array_overflows`: a descriptor that is read and ends a run.
-/

namespace TypedBindings

open Abi TypeScript

variable {size : Nat} {p : Project} {f : FoundArtifact}

/-! ## Bindings that are too large -/

namespace Binding

variable {c : Artifact.Contract} {path : String}

theorem exists_lower_of_bindContract {u : SourceUnit} (h : bindContract p c path = .ok u) :
    ∃ i, c.lower = .ok i := by
  unfold bindContract at h
  obtain ⟨i, hi, -⟩ := exists_of_bind_eq_ok h
  exact ⟨i, mapError_eq_ok_iff.1 hi⟩

/-- What generating a binding comes to is the binding, or the fault, of the contract. -/
theorem eq_bindContract_of_builtContract? {result : Except Fault SourceUnit}
    (h : builtContract? size p c path = some result) : result = bindContract p c path := by
  unfold builtContract? at h
  split at h
  · next fault hfault =>
    cases h
    exact hfault.symm
  · next u hu =>
    split at h
    · cases h
      exact hu.symm
    · cases h

/-- **A contract is too large** exactly if it has a binding and one of its descriptors overflows. -/
theorem builtContract?_eq_none_iff :
    builtContract? size p c path = none ↔
      (∃ u, bindContract p c path = .ok u) ∧ ∃ d ∈ c.usedDescriptors, Overflows size d := by
  unfold builtContract?
  cases hbind : bindContract p c path with
  | error fault => exact iff_of_false nofun fun h => by obtain ⟨⟨_, ⟨⟩⟩, -⟩ := h
  | ok u =>
    obtain ⟨i, hi⟩ := exists_lower_of_bindContract hbind
    have htypes : c.usedTypes = i.usedTypes := by
      unfold Artifact.Contract.usedTypes
      rw [hi]
      rfl
    have hlong : canBuild size i.usedTypes = false ↔ ∃ d ∈ c.usedDescriptors, Overflows size d :=
      canBuild_eq_false_iff
        (Artifact.Contract.areReadAs_usedTypes (Artifact.Contract.hasInterface_of_lower hi))
    rw [htypes, ← hlong]
    cases canBuild size i.usedTypes <;> simp

end Binding

open Binding

/-- **An artifact ends the run as a contract**: it has a binding, and one of the descriptors that its
unit shows overflows. -/
def EndsAsContract (size : Nat) (p : Project) (f : FoundArtifact) : Prop :=
  ∃ c u, f.artifact = .contract c ∧ bindContract p c f.path = .ok u ∧
    ∃ d ∈ c.usedDescriptors, Overflows size d

/-- **An artifact ends the run as a script.** -/
def EndsAsScript (size : Nat) (f : FoundArtifact) : Prop :=
  ∃ s abi, f.artifact = .script s ∧ bindScript s = .ok abi ∧
    ∃ d ∈ s.usedDescriptors, Overflows size d

theorem exceedsAsContract_iff : exceedsAsContract size p f = true ↔ EndsAsContract size p f := by
  unfold exceedsAsContract EndsAsContract
  cases f.artifact with
  | script s => simp
  | contract c => simp [builtContract?_eq_none_iff]

theorem exceedsAsScript_iff : exceedsAsScript size f = true ↔ EndsAsScript size f := by
  unfold exceedsAsScript EndsAsScript
  cases f.artifact with
  | contract c => simp
  | script s =>
    cases hbind : bindScript s with
    | error fault => simp [hbind]
    | ok abi =>
      have hread := Artifact.Script.areReadAs_usedTypes (mapError_eq_ok_iff.1 hbind)
      simp [hbind, canBuild_eq_false_iff hread]

/-! ## The phases of a run -/

section

variable {o : RunOptions} {s s' s₁ : RunState} {found : Sources}

/-- Once its artifacts are found, a run has written nothing. -/
theorem generated_of_find (h : (Run.find o).Returns s found s') :
    s'.report.generated = s.report.generated := by
  obtain ⟨cleared, -, -, -, rfl⟩ := returns_find_iff.1 h
  rw [report_discovered]

/-! ## The end of a run -/

/-- A run whose contracts can be bound goes on with the scripts. -/
def boundWithin (size : Nat) (o : RunOptions) (found : Sources) : Run (Option Report) := do
  if found.artifacts.any (exceedsAsScript size) then return none
  return some (← Run.writeShared o found)

/-- The course of a run once its artifacts are found. -/
theorem run_codegenWithin_of_find (hfind : (Run.find o).Returns s found s₁) :
    (codegenWithin size o).run.run s =
      if found.artifacts.any (exceedsAsContract size found.project) then (.ok none, s₁)
      else (Run.bindArtifacts o found >>= fun _ => boundWithin size o found).run.run s₁ := by
  unfold codegenWithin
  rw [Run.run_bind_of_returns hfind]
  split <;> rfl

theorem returns_boundWithin_none_iff :
    (boundWithin size o found).Returns s none s' ↔
      found.artifacts.any (exceedsAsScript size) = true ∧ s' = s := by
  unfold boundWithin
  split
  · next h => simp [Run.returns_pure_iff, h]
  · next h =>
    refine iff_of_false (fun hreturns => ?_) (fun hand => h hand.1)
    obtain ⟨report, s₂, -, hpure⟩ := Run.returns_bind_iff.1 hreturns
    cases (Run.returns_pure_iff.1 hpure).1

/-- **The runs that end without a report**: where a contract is too large, before a unit is written,
and where only a script is, behind the units of the contracts. -/
theorem returns_none_iff (hfind : (Run.find o).Returns s found s₁) :
    (codegenWithin size o).Returns s none s' ↔
      (∃ f ∈ found.artifacts, EndsAsContract size found.project f) ∧ s' = s₁ ∨
        (∀ f ∈ found.artifacts, ¬ EndsAsContract size found.project f) ∧
          (∃ f ∈ found.artifacts, EndsAsScript size f) ∧
          (Run.bindArtifacts o found).Returns s₁ () s' := by
  have hcontracts : found.artifacts.any (exceedsAsContract size found.project) = true ↔
      ∃ f ∈ found.artifacts, EndsAsContract size found.project f := by
    simp only [List.any_eq_true, exceedsAsContract_iff]
  have hscripts : found.artifacts.any (exceedsAsScript size) = true ↔
      ∃ f ∈ found.artifacts, EndsAsScript size f := by
    simp only [List.any_eq_true, exceedsAsScript_iff]
  have hrun : (codegenWithin size o).run.run s = _ := run_codegenWithin_of_find hfind
  -- Contracts are bound before anything is written, and scripts behind all that contracts write.
  by_cases hany : found.artifacts.any (exceedsAsContract size found.project) = true
  · rw [if_pos hany] at hrun
    unfold Run.Returns
    rw [hrun]
    obtain ⟨f, hf, hends⟩ := hcontracts.1 hany
    constructor
    · intro h
      cases h
      exact Or.inl ⟨⟨f, hf, hends⟩, rfl⟩
    · rintro (⟨-, rfl⟩ | ⟨hno, -⟩)
      · rfl
      · exact absurd hends (hno f hf)
  · rw [if_neg hany] at hrun
    have hno : ¬ ∃ f ∈ found.artifacts, EndsAsContract size found.project f :=
      fun h => hany (hcontracts.2 h)
    have hbind : (codegenWithin size o).Returns s none s' ↔
        (Run.bindArtifacts o found >>= fun _ => boundWithin size o found).Returns s₁ none s' := by
      unfold Run.Returns
      rw [hrun]
    rw [hbind, Run.returns_bind_iff]
    simp only [returns_boundWithin_none_iff, hscripts]
    constructor
    · rintro ⟨_, s₂, hwrite, hend, rfl⟩
      exact Or.inr ⟨fun f hf hends => hno ⟨f, hf, hends⟩, hend, hwrite⟩
    · rintro (⟨h, -⟩ | ⟨-, hend, hwrite⟩)
      · exact absurd h hno
      · exact ⟨(), s', hwrite, hend, rfl⟩

/-- **A run that no list ends** is that of `codegen`, fault for fault. -/
theorem run_codegenWithin
    (h : ∀ found s₁, (Run.find o).Returns s found s₁ → ∀ f ∈ found.artifacts,
      ¬ EndsAsContract size found.project f ∧ ¬ EndsAsScript size f) :
    (codegenWithin size o).run.run s = (some <$> codegen o : Run (Option Report)).run.run s := by
  have hcodegen : (some <$> codegen o : Run (Option Report)) = (do
      let found ← Run.find o
      Run.bindArtifacts o found
      return some (← Run.writeShared o found)) := by
    unfold codegen
    simp only [map_bind, bind_pure_comp]
  rw [hcodegen]
  cases hfind : (Run.find o).run.run s with
  | mk result s₁ =>
    cases result with
    | error fault =>
      unfold codegenWithin
      rw [Run.run_bind_of_fault hfind, Run.run_bind_of_fault hfind]
    | ok found =>
      have hcontracts : found.artifacts.any (exceedsAsContract size found.project) = false := by
        rw [List.any_eq_false]
        exact fun f hf hexceeds => (h found s₁ hfind f hf).1 (exceedsAsContract_iff.1 hexceeds)
      have hscripts : found.artifacts.any (exceedsAsScript size) = false := by
        rw [List.any_eq_false]
        exact fun f hf hexceeds => (h found s₁ hfind f hf).2 (exceedsAsScript_iff.1 hexceeds)
      rw [run_codegenWithin_of_find hfind, hcontracts, Run.run_bind_of_returns hfind, boundWithin,
        hscripts]
      rfl

end

namespace Binding

/-- **What is built, and what ends the run.** A descriptor that is read gives a type that can be
built exactly if it does not overflow. Generating the binding of a contract gives its unit or what
is wrong with it, as if every list could be allocated, unless the contract has a binding and one of
the descriptors that its unit shows overflows. One such contract ends the run before a unit is
written, a script does behind the units of the contracts, and any other run is that of `codegen`. -/
theorem overflow_iff_long (size : Nat) :
    (∀ {text : String} {type : ValueType}, ValueType.ofDescriptor text = .ok type →
      (builtTypeOf size type = none ↔ Overflows size text) ∧
        ∀ built, builtTypeOf size type = some built → built = typeOf type) ∧
      (∀ (p : Project) (c : Artifact.Contract) (path : String),
        (builtContract? size p c path = none ↔
          (∃ u, bindContract p c path = .ok u) ∧ ∃ d ∈ c.usedDescriptors, Overflows size d) ∧
        ∀ result, builtContract? size p c path = some result → result = bindContract p c path) ∧
      ∀ (o : RunOptions) (t : FileTree) (found : Sources) (s : RunState),
        (Run.find o).Returns { tree := t } found s →
        (t.cleared? o.outputDir = some s.tree ∧ s.report.generated = []) ∧
        (∀ s', (codegenWithin size o).Returns { tree := t } none s' ↔
          (∃ f ∈ found.artifacts, EndsAsContract size found.project f) ∧ s' = s ∨
            (∀ f ∈ found.artifacts, ¬ EndsAsContract size found.project f) ∧
              (∃ f ∈ found.artifacts, EndsAsScript size f) ∧
              (Run.bindArtifacts o found).Returns s () s') ∧
        ((∀ f ∈ found.artifacts,
            ¬ EndsAsContract size found.project f ∧ ¬ EndsAsScript size f) →
          (codegenWithin size o).run.run { tree := t } =
            (some <$> codegen o : Run (Option Report)).run.run { tree := t }) := by
  refine ⟨fun h => ⟨builtTypeOf_eq_none_iff_overflows h, fun _ => eq_typeOf_of_builtTypeOf⟩,
    fun _ _ _ => ⟨builtContract?_eq_none_iff, fun _ => eq_bindContract_of_builtContract?⟩,
    fun o t found s hfind => ⟨⟨?_, generated_of_find hfind⟩, fun s' => returns_none_iff hfind,
      fun hno => run_codegenWithin fun found' s' hfind' => ?_⟩⟩
  · obtain ⟨cleared, hcleared, -, -, rfl⟩ := returns_find_iff.1 hfind
    exact hcleared
  · cases hfind.symm.trans hfind'
    exact hno

/-! ### A contract that is too large -/

/-- A contract with one field, of a type that is given by its descriptor. -/
def fieldContract (descriptor : String) : Artifact.Contract where
  version := ""
  name := "Store"
  bytecode := ""
  codeHash := ""
  fields := ⟨["slots"], [descriptor], [true]⟩
  events := []
  functions := []
  constants := []
  enums := []

/-- A project that knows the contract. -/
def storeProject : Project := ⟨none, [("Store", ⟨"", "", "", "", []⟩)]⟩

/-- The artifact of a contract with one field, an array of the largest length. -/
def storeText : String :=
  "\x7b\"name\":\"Store\",\"bytecode\":\"\",\"codeHash\":\"\"," ++
    "\"fieldsSig\":\x7b\"names\":[\"slots\"]," ++
    "\"types\":[\"[U256;18446744073709551615]\"]\x7d\x7d"

def twoInfosText : String :=
  "\x7b\"infos\":\x7b\"A\":\x7b\"sourceFile\":\"\"," ++
    "\"bytecodeDebugPatch\":\"\",\"codeHashDebug\":\"\"\x7d," ++
    "\"Store\":\x7b\"sourceFile\":\"\"," ++
    "\"bytecodeDebugPatch\":\"\",\"codeHashDebug\":\"\"\x7d\x7d\x7d"

/-- A directory with the artifacts of an empty contract and of the one that is too large. -/
def storeTree : FileTree where
  entries :=
    [(["work", ".project.json"], .file (some twoInfosText)),
      (["work", "A.ral.json"], .file (some emptyContractText)),
      (["work", "Store.ral.json"], .file (some storeText))]
  workDir := ["work"]

def storeCleared : FileTree :=
  { storeTree with entries := storeTree.entries ++ [(["work", "ts"], .dir)] }

def storeFiles : List FileTree.FoundFile :=
  [⟨["A.ral.json"], some emptyContractText⟩, ⟨["Store.ral.json"], some storeText⟩]

/-- The artifacts that are found, before they are sorted. -/
@[irreducible] def storeArtifacts : List FoundArtifact :=
  (storeFiles.foldr (Discovery.add ".") ⟨[], []⟩).artifacts

@[irreducible] def storeFoundProject : Project :=
  (storeCleared.project? hereOptions.artifactDir).get (by decide +kernel)

theorem store_candidates : candidates storeCleared "." = storeFiles := by
  have hplace : storeCleared.canonical? "." = some ["work"] := rfl
  rw [candidates_of_ordered hplace (by decide +kernel)]
  rfl

theorem store_artifacts : storeArtifacts = (storeCleared.discovery ".").artifacts := by
  unfold storeArtifacts
  exact (artifacts_of_ordered store_candidates (by decide +kernel)).symm

/-- A run finds both contracts. -/
theorem exists_find_store : ∃ s,
    (Run.find hereOptions).Returns { tree := storeTree } ⟨storeFoundProject, storeArtifacts⟩ s := by
  refine ⟨_, returns_find_iff.2 ⟨storeCleared, rfl, ?_, store_artifacts, rfl⟩⟩
  unfold storeFoundProject
  rw [Option.some_get]

/-- Whether an artifact is that of a contract with a binding that shows a descriptor. -/
def showsDescriptor (p : Project) (descriptor : String) (f : FoundArtifact) : Bool :=
  match f.artifact with
  | .script _ => false
  | .contract c => (bindContract p c f.path).toBool && c.usedDescriptors.contains descriptor

theorem endsAsContract_of_showsDescriptor {d : String} (h : showsDescriptor p d f = true)
    (hd : Overflows size d) : EndsAsContract size p f := by
  unfold showsDescriptor at h
  cases hf : f.artifact with
  | script s =>
    rw [hf] at h
    cases h
  | contract c =>
    rw [hf] at h
    obtain ⟨hbound, hshown⟩ := (Bool.and_eq_true _ _).mp h
    cases hu : bindContract p c f.path with
    | error fault =>
      rw [hu] at hbound
      cases hbound
    | ok u => exact ⟨c, u, hf, hu, d, List.contains_iff_mem.1 hshown, hd⟩

/-- Both contracts have a binding, and one of them shows the array. -/
theorem store_seen :
    (storeArtifacts.map fun f => (boundContract? storeFoundProject f,
      showsDescriptor storeFoundProject "[U256;18446744073709551615]" f)) =
      [(some "A", false), (some "Store", true)] := by
  decide +kernel

theorem store_bound :
    storeArtifacts.filterMap (boundContract? storeFoundProject) = ["A", "Store"] := by
  have hseen := congrArg (List.filterMap Prod.fst) store_seen
  rwa [List.filterMap_map] at hseen

theorem store_shows :
    storeArtifacts.any (showsDescriptor storeFoundProject "[U256;18446744073709551615]") =
      true := by
  have hseen := congrArg (List.any · Prod.snd) store_seen
  rwa [List.any_map] at hseen

theorem overflows_longest {size : Nat} (hsize : 24 ≤ size) :
    Overflows size "[U256;18446744073709551615]" := by
  let word : Length := ⟨18446744073709551615, by decide, by decide⟩
  have hread : ValueType.ofDescriptor "[U256;18446744073709551615]" =
      .ok (.array (.scalar .u256) word) := by rfl
  have hlong : allocationLimit < word.val * size := by
    show 2 ^ 63 - 1 < 18446744073709551615 * size
    omega
  exact (builtTypeOf_eq_none_iff_overflows hread).1
    (builtTypeOf_eq_none_iff.2 ⟨word, List.mem_singleton_self word, hlong⟩)

theorem exists_endsAsContract_store {size : Nat} (hsize : 24 ≤ size) :
    ∃ f ∈ storeArtifacts, EndsAsContract size storeFoundProject f := by
  obtain ⟨f, hf, hshows⟩ := List.any_eq_true.1 store_shows
  exact ⟨f, hf, endsAsContract_of_showsDescriptor hshows (overflows_longest hsize)⟩

/-- The longest array of pairs that can be built with elements of 24 bytes, one of one more, and a run
that a contract ends. -/
theorem overflow_iff_long_pairs :
    (∃ type, ValueType.ofDescriptor "[[Bool;2];384307168202282325]" = .ok type ∧
      builtTypeOf 24 type = some (typeOf type) ∧ ¬ Overflows 24 "[[Bool;2];384307168202282325]") ∧
      (∃ type, ValueType.ofDescriptor "[[Bool;2];384307168202282326]" = .ok type ∧
        builtTypeOf 24 type = none ∧ Overflows 24 "[[Bool;2];384307168202282326]" ∧
        builtContract? 24 storeProject (fieldContract "[[Bool;2];384307168202282326]")
          "Store.ral.json" = none) ∧
      ∃ s, (Run.find hereOptions).Returns { tree := storeTree }
          ⟨storeFoundProject, storeArtifacts⟩ s ∧
        (codegenWithin 24 hereOptions).Returns { tree := storeTree } none s ∧
        s.report.generated = [] := by
  let two : Length := ⟨2, by decide, by decide⟩
  let most : Length := ⟨384307168202282325, by decide, by decide⟩
  let more : Length := ⟨384307168202282326, by decide, by decide⟩
  have hmost : ValueType.ofDescriptor "[[Bool;2];384307168202282325]" =
      .ok (.array (.array (.scalar .bool) two) most) := by rfl
  have hmore : ValueType.ofDescriptor "[[Bool;2];384307168202282326]" =
      .ok (.array (.array (.scalar .bool) two) more) := by rfl
  have hbuilt : builtTypeOf 24 (.array (.array (.scalar .bool) two) most) =
      some (typeOf (.array (.array (.scalar .bool) two) most)) :=
    builtTypeOf_eq_some_iff.2 ⟨by decide, rfl⟩
  have hnone : builtTypeOf 24 (.array (.array (.scalar .bool) two) more) = none :=
    builtTypeOf_eq_none_iff.2 ⟨more, by decide, by decide⟩
  have hlong := ((overflow_iff_long 24).1 hmore).1.1 hnone
  obtain ⟨s, hfind⟩ := exists_find_store
  obtain ⟨⟨-, hgenerated⟩, hends, -⟩ := (overflow_iff_long 24).2.2 _ _ _ _ hfind
  refine ⟨⟨_, hmost, hbuilt, fun h => ?_⟩, ⟨_, hmore, hnone, hlong, ?_⟩, s, hfind, ?_, hgenerated⟩
  · rw [((overflow_iff_long 24).1 hmost).1.2 h] at hbuilt
    cases hbuilt
  · exact ((overflow_iff_long 24).2.1 storeProject _ "Store.ral.json").1.2
      ⟨⟨_, rfl⟩, _, List.mem_singleton_self _, hlong⟩
  · exact (hends s).2 (Or.inl ⟨exists_endsAsContract_store le_rfl, rfl⟩)

/-- **A descriptor that is read and cannot be built**: its length is the largest machine word. A
contract with a field of that type has a binding and ends the run, and with it that of a contract
that has nothing in it. -/
theorem longest_array_overflows :
    ∃ type u, ValueType.ofDescriptor "[U256;18446744073709551615]" = .ok type ∧
      bindContract storeProject (fieldContract "[U256;18446744073709551615]") "Store.ral.json" =
        .ok u ∧
      (∃ found s₁, (Run.find hereOptions).Returns { tree := storeTree } found s₁ ∧
        found.contracts = ["A", "Store"]) ∧
      ∀ size, 24 ≤ size →
        (∃ length ∈ type.lengths, ¬ length.val * size ≤ allocationLimit) ∧
        builtTypeOf size type = none ∧
        builtContract? size storeProject (fieldContract "[U256;18446744073709551615]")
          "Store.ral.json" = none ∧
        ∃ s, (codegenWithin size hereOptions).Returns { tree := storeTree } none s ∧
          s.report.generated = [] := by
  let word : Length := ⟨18446744073709551615, by decide, by decide⟩
  have hread : ValueType.ofDescriptor "[U256;18446744073709551615]" =
      .ok (.array (.scalar .u256) word) := by rfl
  obtain ⟨s, hfind⟩ := exists_find_store
  refine ⟨_, _, hread, rfl, ⟨_, s, hfind, store_bound⟩, fun size hsize => ?_⟩
  have hoverflows := overflows_longest hsize
  have hnone := (builtTypeOf_eq_none_iff_overflows hread).2 hoverflows
  obtain ⟨length, hlength, hlong⟩ := builtTypeOf_eq_none_iff.1 hnone
  refine ⟨⟨length, hlength, Nat.not_le.2 hlong⟩, hnone, ?_, s, ?_, generated_of_find hfind⟩
  · exact builtContract?_eq_none_iff.2 ⟨⟨_, rfl⟩, _, List.mem_singleton_self _, hoverflows⟩
  · exact (returns_none_iff hfind).2 (Or.inl ⟨exists_endsAsContract_store hsize, rfl⟩)

end Binding

end TypedBindings
