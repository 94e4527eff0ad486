import Mathlib.Data.List.Nodup
import TypedBindings.Proofs.Binding.ContractNames
import TypedBindings.Proofs.Binding.DeploymentParts
import TypedBindings.Proofs.Binding.Rebuilt
import TypedBindings.Proofs.Deployment.Directory
import TypedBindings.Proofs.Run.Course

/-!
# The names in the deployments unit

Imports are named after networks and contracts, and members after tasks, whose names are made
identifiers by a replacement that is not injective.

* `importedNames_nodup_iff`: when no name is imported twice.
* `memberNames_nodup_iff`, `literalKeys_nodup_iff`: when no member is named twice.
* `deployment_names`: both, for manifests that are read from a directory.
-/

namespace TypedBindings.Binding

open TypeScript

/-! ## Imports -/

/-- The names that every deployments unit imports. -/
def fixedDeploymentImports : List String :=
  ["RunScriptResult", "DeployContractExecutionResult", "NetworkId"]

/-- The name under which a network's manifest is imported. -/
def manifestBinding (n : Network) : String := n.id ++ "Deployments"

theorem manifestBinding_injective : Function.Injective manifestBinding := fun _ _ h =>
  Network.id_injective ((String.append_left_inj _).1 h)

/-- **What keeps imports apart**, given the networks that have a manifest and the contracts in use. -/
structure HasOwnImports (found : List Network) (used : List String) : Prop where
  /-- No network's manifest is imported twice. -/
  networks : found.Nodup
  /-- No contract is named as the instances of another one. -/
  instances : ∀ T ∈ used, instanceName T ∉ used
  fixed : ∀ T ∈ used, T ∉ fixedDeploymentImports
  /-- No contract is named as an imported manifest. -/
  manifests : ∀ T ∈ used, ∀ n ∈ found, T ≠ manifestBinding n

/-- The unit imports fixed names, the contracts in use and one manifest for each network. -/
theorem importedNames_deploymentsUnit (m : Manifests) (imports : List ManifestImport)
    (contracts : List String) :
    (deploymentsUnit m imports contracts).importedNames =
      fixedDeploymentImports ++
        ((usedContracts (boundSchema m contracts)).flatMap (fun t => [t, instanceName t]) ++
          (imports.map ManifestImport.network).map manifestBinding) := by
  have hmanifests : (imports.map fun i =>
      Item.importDecl ⟨.default i.binding, i.source⟩).flatMap Item.importedNames =
        (imports.map ManifestImport.network).map manifestBinding := by
    induction imports with
    | nil => rfl
    | cons i rest ih => rw [List.map_cons, List.flatMap_cons, ih]; rfl
  have hused : (if (usedContracts (boundSchema m contracts)).isEmpty then []
      else [Item.importDecl ⟨.names ((usedContracts (boundSchema m contracts)).flatMap fun t =>
        [t, instanceName t]), "."⟩]).flatMap Item.importedNames =
      (usedContracts (boundSchema m contracts)).flatMap fun t => [t, instanceName t] := by
    split
    · next h => rw [List.isEmpty_iff.1 h]; rfl
    · exact List.append_nil _
  have hdeclared : [Item.aliasDecl (deploymentsType (boundSchema m contracts)),
      .functionDecl (rebuild (boundSchema m contracts)),
      .functionDecl (selection imports)].flatMap Item.importedNames = [] := rfl
  unfold SourceUnit.importedNames deploymentsUnit
  dsimp only
  rw [List.flatMap_append, List.flatMap_append, List.flatMap_append, hmanifests, hused, hdeclared,
    List.append_nil, List.append_assoc]
  rfl

/-- Contracts and their instances are apart if no contract is named as an instance. -/
theorem nodup_pairs_iff {used : List String} (hused : used.Nodup) :
    (used.flatMap fun t => [t, instanceName t]).Nodup ↔ ∀ T ∈ used, instanceName T ∉ used := by
  have hinj : Function.Injective instanceName := fun _ _ h => (String.append_left_inj _).1 h
  have hperm : (used.flatMap fun t => [t, instanceName t]).Perm (used ++ used.map instanceName) := by
    clear hused
    induction used with
    | nil => exact List.Perm.refl _
    | cons t rest ih =>
      rw [List.flatMap_cons, List.map_cons]
      exact ((ih.cons (instanceName t)).trans List.perm_middle.symm).cons t
  rw [hperm.nodup_iff, List.nodup_append']
  constructor
  · rintro ⟨-, -, hdisjoint⟩ T hT hmem
    exact hdisjoint hmem (List.mem_map_of_mem hT)
  · intro h
    refine ⟨hused, (List.nodup_map_iff hinj).2 hused, fun name hname hmem => ?_⟩
    obtain ⟨T, hT, rfl⟩ := List.mem_map.1 hmem
    exact h T hT hname

/-- The names that are imported are apart exactly if they are for these reasons. -/
theorem nodup_imports_iff {found : List Network} {used : List String} (hused : used.Nodup) :
    (fixedDeploymentImports ++
        (used.flatMap (fun t => [t, instanceName t]) ++ found.map manifestBinding)).Nodup ↔
      HasOwnImports found used := by
  -- Names of instances, manifests and fixed names end differently: only a contract's own name can be
  -- one of the others.
  have hfixedInstance : ∀ T, instanceName T ∉ fixedDeploymentImports :=
    not_mem_of_ending (by decide)
  have hfixedManifest : ∀ n, manifestBinding n ∉ fixedDeploymentImports := by
    intro n
    cases n <;> decide
  have hinstanceManifest : ∀ T n, instanceName T ≠ manifestBinding n := by
    intro T n he
    have hends := ending_suffix T "Instance"
    change "Instance".toList <:+ (instanceName T).toList at hends
    rw [he] at hends
    revert hends
    cases n <;> decide
  have hmem : ∀ name ∈ used.flatMap fun t => [t, instanceName t],
      ∃ T ∈ used, name = T ∨ name = instanceName T := by
    intro name hname
    obtain ⟨T, hT, hname⟩ := List.mem_flatMap.1 hname
    exact ⟨T, hT, by simpa using hname⟩
  have hself : ∀ T ∈ used, T ∈ used.flatMap fun t => [t, instanceName t] :=
    fun T hT => List.mem_flatMap.2 ⟨T, hT, List.mem_cons_self⟩
  rw [List.nodup_append', List.nodup_append', nodup_pairs_iff hused,
    List.nodup_map_iff manifestBinding_injective]
  constructor
  · rintro ⟨-, ⟨hinstances, hnetworks, hpairs⟩, hfixed⟩
    refine ⟨hnetworks, hinstances, fun T hT hmemT => ?_, fun T hT n hn he => ?_⟩
    · exact hfixed hmemT (List.mem_append_left _ (hself T hT))
    · exact hpairs (hself T hT) (he ▸ List.mem_map_of_mem hn)
  · rintro ⟨hnetworks, hinstances, hfixed, hmanifests⟩
    refine ⟨by decide, ⟨hinstances, hnetworks, fun name hname hbinding => ?_⟩,
      fun name hname hrest => ?_⟩
    · obtain ⟨n, hn, rfl⟩ := List.mem_map.1 hbinding
      obtain ⟨T, hT, he | he⟩ := hmem _ hname
      · exact hmanifests T hT n hn he.symm
      · exact hinstanceManifest T n he.symm
    · rcases List.mem_append.1 hrest with hpair | hbinding
      · obtain ⟨T, hT, rfl | rfl⟩ := hmem _ hpair
        · exact hfixed name hT hname
        · exact hfixedInstance T hname
      · obtain ⟨n, -, rfl⟩ := List.mem_map.1 hbinding
        exact hfixedManifest n hname

/-- **When no name is imported twice.** -/
theorem importedNames_nodup_iff (m : Manifests) (imports : List ManifestImport)
    (contracts : List String) :
    (deploymentsUnit m imports contracts).importedNames.Nodup ↔
      HasOwnImports (imports.map ManifestImport.network)
        (usedContracts (boundSchema m contracts)) := by
  rw [importedNames_deploymentsUnit]
  exact nodup_imports_iff (nodup_distinct _)

/-! ## Members -/

/-- No id stands twice in a schema. -/
theorem nodup_boundSchema (m : Manifests) (contracts : List String) :
    (boundSchema m contracts).contracts.all.Nodup ∧ (boundSchema m contracts).scripts.all.Nodup := by
  refine ⟨?_, MergedIds.nodup_all _⟩
  have hall : (boundSchema m contracts).contracts.all =
      m.schema.contracts.all.filter (isBound contracts) := (List.filter_append ..).symm
  rw [hall]
  exact (MergedIds.nodup_all _).filter _

/-- The variable names of distinct tasks are distinct if each task has one of its own. -/
theorem nodup_variables_iff {ids : List String} (h : ids.Nodup) :
    (ids.map TaskId.variableName).Nodup ↔ Set.InjOn TaskId.variableName {id | id ∈ ids} :=
  List.nodup_map_iff_inj_on h

theorem hasOwnVariables_iff (m : Manifests) (contracts : List String) :
    HasOwnVariables (boundSchema m contracts) ↔
      ((boundSchema m contracts).contracts.all.map TaskId.variableName).Nodup ∧
        ((boundSchema m contracts).scripts.all.map TaskId.variableName).Nodup := by
  obtain ⟨hcontracts, hscripts⟩ := nodup_boundSchema m contracts
  rw [nodup_variables_iff hcontracts, nodup_variables_iff hscripts]
  rfl

/-- Members that are named by the variables of ids differ if the variables do. -/
theorem hasDistinctMembers_idMembers_iff {member : Bool → String → Member Ty} {ids : MergedIds}
    (hname : ∀ isOptional id, (member isOptional id).name = TaskId.variableName id)
    (htype : ∀ isOptional id, (member isOptional id).type.memberNames = []) :
    (Ty.object (idMembers member ids)).HasDistinctMembers ↔
      (ids.all.map TaskId.variableName).Nodup := by
  rw [hasDistinctMembers_object_iff, names_idMembers hname]
  refine and_iff_left fun m hm names hmem => ?_
  rcases List.mem_append.1 hm with hm | hm <;> obtain ⟨id, -, rfl⟩ := List.mem_map.1 hm <;>
    exact absurd hmem (htype _ id ▸ List.not_mem_nil)

/-- Without scripts there is nothing that could clash. -/
theorem nodup_scripts_of_none {s : Schema} (h : ¬ s.hasScripts = true) :
    (s.scripts.all.map TaskId.variableName).Nodup := by
  have hnone : s.scripts.all = [] := by
    rw [hasScripts_iff] at h
    exact not_not.1 h
  rw [hnone]
  exact List.nodup_nil

/-- The type of the deployments needs distinct variables of contracts and of scripts. -/
theorem hasDistinctMembers_deploymentsType_iff (s : Schema) :
    (deploymentsType s).type.HasDistinctMembers ↔
      (s.contracts.all.map TaskId.variableName).Nodup ∧
        (s.scripts.all.map TaskId.variableName).Nodup := by
  have hcontracts : (Ty.object (idMembers contractMember s.contracts)).HasDistinctMembers ↔ _ :=
    hasDistinctMembers_idMembers_iff (fun _ _ => rfl) fun _ _ => rfl
  have hscripts : (Ty.object (idMembers scriptMember s.scripts)).HasDistinctMembers ↔ _ :=
    hasDistinctMembers_idMembers_iff (fun _ _ => rfl) fun _ _ => rfl
  have haddress : (Ty.named "string").HasDistinctMembers := nofun
  unfold deploymentsType
  rw [hasDistinctMembers_object_iff, ← hcontracts, ← hscripts]
  by_cases hs : s.hasScripts = true
  · simp only [hs, if_true, List.cons_append, List.nil_append, List.forall_mem_cons,
      List.map_cons, List.map_nil]
    constructor
    · rintro ⟨-, -, hc, hs, -⟩
      exact ⟨hc, hs⟩
    · rintro ⟨hc, hs⟩
      have hnames : ["deployerAddress", "contracts", "scripts"].Nodup := by decide
      exact ⟨hnames, haddress, hc, hs, nofun⟩
  · simp only [hs, Bool.false_eq_true, if_false, List.append_nil, List.forall_mem_cons,
      List.map_cons, List.map_nil]
    constructor
    · rintro ⟨-, -, hc, -⟩
      exact ⟨hc, hscripts.2 (nodup_scripts_of_none hs)⟩
    · rintro ⟨hc, -⟩
      have hnames : ["deployerAddress", "contracts"].Nodup := by decide
      exact ⟨hnames, haddress, hc, nofun⟩

/-- **When no member of a type is named twice.** -/
theorem memberNames_nodup_iff (m : Manifests) (imports : List ManifestImport)
    (contracts : List String) :
    (∀ names ∈ (deploymentsUnit m imports contracts).memberNames, names.Nodup) ↔
      HasOwnVariables (boundSchema m contracts) := by
  obtain ⟨front, hitems, hfront⟩ := items_deploymentsUnit m imports contracts
  have hnone : front.flatMap Item.memberNames = [] := by
    rw [List.flatMap_eq_nil_iff]
    intro item hitem
    obtain ⟨decl, rfl⟩ := hfront item hitem
    rfl
  have hnames : (deploymentsUnit m imports contracts).memberNames =
      (deploymentsType (boundSchema m contracts)).type.memberNames := by
    unfold SourceUnit.memberNames
    rw [hitems, List.flatMap_append, hnone]
    exact List.append_nil _
  rw [hnames, hasOwnVariables_iff]
  exact hasDistinctMembers_deploymentsType_iff _

/-! ## Object literals -/

theorem hasDistinctKeys_rebuiltContracts_iff (ids : MergedIds) :
    (rebuiltContracts ids).HasDistinctKeys ↔ (ids.all.map TaskId.variableName).Nodup := by
  have hone : ∀ {e : Expr}, e.literalKeys = [["contractInstance"]] → e.HasDistinctKeys := by
    intro e he
    unfold Expr.HasDistinctKeys
    rw [he]
    decide
  unfold rebuiltContracts
  rw [hasDistinctKeys_record_iff, keys_rebuiltFields]
  refine and_iff_left fun f hf => ?_
  rcases List.mem_append.1 hf with hf | hf <;> obtain ⟨id, -, rfl⟩ := List.mem_map.1 hf <;>
    exact hone rfl

theorem hasDistinctKeys_rebuiltScripts_iff (ids : MergedIds) :
    (rebuiltScripts ids).HasDistinctKeys ↔ (ids.all.map TaskId.variableName).Nodup := by
  unfold rebuiltScripts
  rw [hasDistinctKeys_record_iff, List.map_map]
  refine and_iff_left fun f hf => ?_
  obtain ⟨id, -, rfl⟩ := List.mem_map.1 hf
  exact hasDistinctKeys_of_nil rfl

/-- The keys of the object literals in a function. -/
def bodyKeys (f : FunctionDecl) : List (List String) := (partsOfBlock f.body).filterMap Expr.keys?

/-- The function that rebuilds a record needs the same as the type. -/
theorem nodup_bodyKeys_rebuild_iff (s : Schema) :
    (∀ keys ∈ bodyKeys (rebuild s), keys.Nodup) ↔
      (s.contracts.all.map TaskId.variableName).Nodup ∧
        (s.scripts.all.map TaskId.variableName).Nodup := by
  have hkeys : bodyKeys (rebuild s) = (rebuiltContracts s.contracts).literalKeys ++
      if s.hasScripts then ["contracts", "scripts"] :: (rebuiltScripts s.scripts).literalKeys
      else [["contracts"]] := by
    unfold bodyKeys rebuild
    cases s.hasScripts <;>
      simp [partsOfBlock, Stmt.parts, Expr.parts, partsOfEntries, Expr.keys?, Entry.key?,
        Expr.literalKeys, List.filterMap_cons]
  rw [hkeys, List.forall_mem_append, ← hasDistinctKeys_rebuiltContracts_iff,
    ← hasDistinctKeys_rebuiltScripts_iff]
  refine and_congr_right fun _ => ?_
  -- Without scripts the function has no literal for them, and no script can have another's name.
  split
  · rw [List.forall_mem_cons]
    exact and_iff_right (by decide)
  · next hs =>
    exact iff_of_true (by decide)
      ((hasDistinctKeys_rebuiltScripts_iff _).2 (nodup_scripts_of_none hs))

/-- The selection of a record has no object literal. -/
theorem bodyKeys_selection (imports : List ManifestImport) : bodyKeys (selection imports) = [] := by
  have hselected : (selectedManifest imports).parts.filterMap Expr.keys? = [] := by
    induction imports with
    | nil => rfl
    | cons i rest ih => exact ih
  unfold bodyKeys selection throwNotDeployed throwAmbiguous throwNotFound
  -- no text of a message is a literal with keys
  generalize aroundNetwork .notDeployed = notDeployed
  generalize aroundNetwork .ambiguousDeployer = ambiguous
  rw [partsOfBlock, Stmt.parts, List.filterMap_append, hselected]
  rfl

/-- **When no object literal has a key twice.** -/
theorem literalKeys_nodup_iff (m : Manifests) (imports : List ManifestImport)
    (contracts : List String) :
    (∀ keys ∈ (deploymentsUnit m imports contracts).literalKeys, keys.Nodup) ↔
      HasOwnVariables (boundSchema m contracts) := by
  obtain ⟨front, hitems, hfront⟩ := items_deploymentsUnit m imports contracts
  have hnone : front.flatMap Item.parts = [] := by
    rw [List.flatMap_eq_nil_iff]
    intro item hitem
    obtain ⟨decl, rfl⟩ := hfront item hitem
    rfl
  have hkeys : (deploymentsUnit m imports contracts).literalKeys =
      bodyKeys (rebuild (boundSchema m contracts)) := by
    have hparts : (deploymentsUnit m imports contracts).items.flatMap Item.parts =
        partsOfBlock (rebuild (boundSchema m contracts)).body ++
          (partsOfBlock (selection imports).body ++ []) := by
      rw [hitems, List.flatMap_append, hnone]
      rfl
    unfold SourceUnit.literalKeys
    rw [hparts, List.append_nil, List.filterMap_append]
    exact (congrArg _ (bodyKeys_selection imports)).trans (List.append_nil _)
  rw [hkeys, hasOwnVariables_iff]
  exact nodup_bodyKeys_rebuild_iff _

/-! ## Manifests of a directory -/

/-- There is one import for each manifest that was read. -/
theorem networks_manifestImports {t : FileTree} {m : Manifests} {dir : String}
    {imports : List ManifestImport} (h : manifestImports t m dir = .ok imports) :
    imports.map ManifestImport.network = m.networks.map Manifest.network := by
  rw [manifestImports_eq] at h
  obtain ⟨here, -, h⟩ := exists_of_bind_eq_ok h
  refine map_eq_of_mapM (fun k i hi => ?_) h
  obtain ⟨place, -, hi⟩ := exists_of_bind_eq_ok hi
  cases hi
  rfl

/-- **The names in the deployments unit**, made for manifests that are read from a directory: when
the imports are apart, when the members of the types are, and when the keys of the object literals
are. -/
theorem deployment_names {t t' : FileTree} {dir out : String} {networks : List Network}
    {m : Manifests} {imports : List ManifestImport}
    (hread : (Manifests.ofDir t dir networks).2 = .ok m)
    (himports : manifestImports t' m out = .ok imports) (contracts : List String) :
    ((deploymentsUnit m imports contracts).importedNames.Nodup ↔
        HasOwnImports (networks.filter fun n => t.hasEntry (n.manifestPath dir))
          (usedContracts (boundSchema m contracts))) ∧
      ((∀ names ∈ (deploymentsUnit m imports contracts).memberNames, names.Nodup) ↔
        HasOwnVariables (boundSchema m contracts)) ∧
      ((∀ keys ∈ (deploymentsUnit m imports contracts).literalKeys, keys.Nodup) ↔
        HasOwnVariables (boundSchema m contracts)) := by
  refine ⟨?_, memberNames_nodup_iff m imports contracts, literalKeys_nodup_iff m imports contracts⟩
  rw [importedNames_nodup_iff, networks_manifestImports himports,
    Manifests.networks_of_ofDir hread]

/-! ### Names that clash -/

theorem exists_ok_of_any {ε α : Type} {x : Except ε α} {p : α → Bool}
    (h : x.toOption.any p = true) : ∃ a, x = .ok a ∧ p a = true := by
  cases x with
  | error fault => cases h
  | ok a => exact ⟨a, rfl, h⟩

/-- A manifest of two scripts whose variable names are one. -/
def twinScriptsText : String :=
  "\x7b\"deployerAddress\":\"X\",\"scripts\":\x7b\"a:b\":\x7b\"txId\":\"s\"\x7d," ++
    "\"a-b\":\x7b\"txId\":\"s\"\x7d\x7d\x7d"

/-- A manifest with two scripts whose ids give one variable. -/
def twinScriptsTree : FileTree where
  entries := [(["work", ".deployments.testnet.json"], .file (some twinScriptsText))]
  workDir := ["work"]

theorem twinScripts_read (networks : List Network) (h : networks = [.testnet, .devnet] ∨
      networks = [.testnet, .testnet]) :
    ∃ m imports, (Manifests.ofDir twinScriptsTree "." networks).2 = .ok m ∧
      manifestImports twinScriptsTree m "." = .ok imports ∧
        ¬ ((boundSchema m []).scripts.all.map TaskId.variableName).Nodup := by
  have hread : ((Manifests.ofDir twinScriptsTree "." networks).2.toOption.any fun m =>
      (manifestImports twinScriptsTree m ".").toOption.isSome &&
        !decide ((boundSchema m []).scripts.all.map TaskId.variableName).Nodup) = true := by
    rcases h with rfl | rfl <;> decide +kernel
  obtain ⟨m, hm, hp⟩ := exists_ok_of_any hread
  rw [Bool.and_eq_true, Bool.not_eq_true', decide_eq_false_iff_not] at hp
  obtain ⟨himports, hvariables⟩ := hp
  obtain ⟨imports, himports⟩ := Option.isSome_iff_exists.1 himports
  refine ⟨m, imports, hm, ?_, hvariables⟩
  cases hi : manifestImports twinScriptsTree m "." with
  | error fault => rw [hi] at himports; cases himports
  | ok found => rw [hi] at himports; cases himports; rfl

theorem deployment_names_twin_scripts :
    ∃ m imports, (Manifests.ofDir twinScriptsTree "." [.testnet, .devnet]).2 = .ok m ∧
      manifestImports twinScriptsTree m "." = .ok imports ∧
      ((deploymentsUnit m imports []).importedNames.Nodup ↔
        HasOwnImports
          ([Network.testnet, .devnet].filter fun n =>
            twinScriptsTree.hasEntry (n.manifestPath "."))
          (usedContracts (boundSchema m []))) ∧
      ((∀ names ∈ (deploymentsUnit m imports []).memberNames, names.Nodup) ↔
        HasOwnVariables (boundSchema m [])) ∧
      ((∀ keys ∈ (deploymentsUnit m imports []).literalKeys, keys.Nodup) ↔
        HasOwnVariables (boundSchema m [])) := by
  obtain ⟨m, imports, hread, himports, -⟩ := twinScripts_read _ (Or.inl rfl)
  exact ⟨m, imports, hread, himports, deployment_names hread himports []⟩

/-- A network that is asked for twice is imported twice, and tasks with one variable name give an
object type and an object literal two members of one name. -/
theorem deployment_names_clash :
    ∃ m imports, (Manifests.ofDir twinScriptsTree "." [.testnet, .testnet]).2 = .ok m ∧
      manifestImports twinScriptsTree m "." = .ok imports ∧
      ¬ (deploymentsUnit m imports []).importedNames.Nodup ∧
      (¬ ∀ names ∈ (deploymentsUnit m imports []).memberNames, names.Nodup) ∧
      ¬ ∀ keys ∈ (deploymentsUnit m imports []).literalKeys, keys.Nodup := by
  obtain ⟨m, imports, hread, himports, hvariables⟩ := twinScripts_read _ (Or.inr rfl)
  have hown : ¬ HasOwnVariables (boundSchema m []) := fun hown =>
    hvariables ((hasOwnVariables_iff m []).1 hown).2
  have hnetworks : imports.map ManifestImport.network = [.testnet, .testnet] := by
    rw [networks_manifestImports himports, Manifests.networks_of_ofDir hread]
    decide +kernel
  refine ⟨m, imports, hread, himports, fun hnodup => ?_, fun hnames => ?_, fun hkeys => ?_⟩
  · have hfound := ((importedNames_nodup_iff m imports []).1 hnodup).networks
    rw [hnetworks] at hfound
    exact absurd hfound (by decide)
  · exact hown ((memberNames_nodup_iff m imports []).1 hnames)
  · exact hown ((literalKeys_nodup_iff m imports []).1 hkeys)

end TypedBindings.Binding
