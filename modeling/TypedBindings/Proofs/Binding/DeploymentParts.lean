import Mathlib.Data.List.Forall2
import TypedBindings.Binding.Deployments
import TypedBindings.Proofs.Deployment.Merging
import TypedBindings.Proofs.TypeScript.Names

/-!
# The parts of the deployments unit agree

The type of the deployments, the function that rebuilds a record and the import of contracts go
through the tasks of one schema separately.

* `MatchesMember`: a value belongs to a member of an object type.
* `PartsAgree`: the parts of a unit belong together, member by member.
* `deployment_parts`: so do those of every deployments unit.
-/

namespace TypedBindings.TypeScript

/-! ## Looking into types and functions -/

/-- The type of the first member of a name. -/
def Ty.member? (name : String) : Ty → Option Ty
  | .object members => (members.find? fun m => m.name = name).map Member.type
  | _ => none

/-- The fields of an object literal; what is spread is left out. -/
def Expr.fields : Expr → List (String × Expr)
  | .object entries => entries.filterMap fun
    | .field key value => some (key, value)
    | .spread _ => none
  | _ => []

/-- The value of the first field of a name. -/
def Expr.field? (name : String) (e : Expr) : Option Expr := e.fields.lookup name

/-- The expression that guards a value: where it is `undefined`, so is the value. -/
def Expr.guard? : Expr → Option Expr
  | .cond (.binary tested .strictEq .undefined) .undefined _ => some tested
  | _ => none

/-- A value behind its guard, if it has one. -/
def Expr.unguarded : Expr → Expr
  | .cond (.binary _ .strictEq .undefined) .undefined value => value
  | value => value

/-- The expressions that an object literal spreads. -/
def Expr.spreads : Expr → List Expr
  | .object entries => entries.filterMap fun
    | .field _ _ => none
    | .spread value => some value
  | _ => []

/-- The name whose `at` is called. -/
def Expr.atCallee? : Expr → Option String
  | .call (.member (.ident callee) name) _ _ => if name = "at" then some callee else none
  | _ => none

/-- The names whose `at` is called in an expression. -/
def Expr.atCallees (e : Expr) : List String := e.parts.filterMap Expr.atCallee?

/-- The value that is declared first under a name in a block. -/
def declared? (name : String) (block : List Stmt) : Option Expr :=
  block.findSome? fun
    | .declare declarator value => if declarator.name = name then some value else none
    | _ => none

/-- The value that a block returns first, branches aside. -/
def returned? (block : List Stmt) : Option Expr :=
  block.findSome? fun
    | .ret value => some value
    | _ => none

/-- The names that an item imports from a source, unless it is the default that it imports. -/
def Item.namesFrom? (source : String) : Item → Option (List String)
  | .importDecl ⟨.names names, s⟩ => if s = source then some names else none
  | _ => none

/-- The lists of names that a unit imports from a source. -/
def SourceUnit.namesFrom (u : SourceUnit) (source : String) : List (List String) :=
  u.items.filterMap (Item.namesFrom? source)

theorem fields_record (fields : List (String × Expr)) : (Expr.record fields).fields = fields := by
  unfold Expr.record Expr.fields
  dsimp only
  rw [List.filterMap_map]
  exact (congrFun List.filterMap_eq_map' fields).trans (List.map_id _)

end TypedBindings.TypeScript

namespace TypedBindings.Binding

open TypeScript

/-! ## What belongs together -/

/-- **A value belongs to a member**: it stands under the member's name, is guarded exactly if the
member is optional, by what it spreads, and calls `at` of the one contract whose instance the
member's type names. -/
structure MatchesMember (contracts : List String) (m : Member Ty) (f : String × Expr) : Prop where
  name : f.1 = m.name
  guard : f.2.guard?.toList = if m.isOptional then f.2.unguarded.spreads else []
  contract : ∃ T ∈ contracts, f.2.atCallees = [T] ∧
    m.type = .generic "DeployContractExecutionResult" [.named (instanceName T)]

/-- **The contracts that are imported** are those whose `at` is called, once each, in the order of
the first calls. -/
structure ImportsContracts (u : SourceUnit) (called used : List String) : Prop where
  nodup : used.Nodup
  mem : ∀ T, T ∈ used ↔ T ∈ called
  order : used.Pairwise (FirstBefore called)
  names : u.namesFrom "." =
    if used.isEmpty then [] else [used.flatMap fun T => [T, instanceName T]]

/-- **The parts of a unit agree**: the members of the contracts' type, the value that is rebuilt for
them, the whole type and the value that is returned. -/
structure PartsAgree (u : SourceUnit) (contracts : List String) (ids : MergedIds)
    (members : List (Member Ty)) (value : Expr) (type : Ty) (result : Expr) : Prop where
  names : members.map Member.name = ids.all.map TaskId.variableName
  keys : value.keys? = some (members.map Member.name)
  entries : List.Forall₂ (MatchesMember contracts) members value.fields
  /-- Each value spreads what the record has for its task. -/
  recorded : (value.fields.map fun f => f.2.unguarded.spreads) =
    ids.all.map fun id => [.index (.ident "json.contracts") (.str id)]
  imports : ∃ used, ImportsContracts u (value.fields.flatMap fun f => f.2.atCallees) used
  /-- The type has scripts exactly if the returned value has them. -/
  hasScripts : (type.member? "scripts").isSome = (result.field? "scripts").isSome
  scripts : ∀ scriptsType scriptsValue, type.member? "scripts" = some scriptsType →
    result.field? "scripts" = some scriptsValue →
    ∃ scriptMembers, scriptsType = .object scriptMembers ∧
      scriptsValue.keys? = some (scriptMembers.map Member.name)

/-! ## The contracts -/

/-- The fields of the rebuilt contracts, the required ones first. -/
theorem fields_rebuiltContracts (ids : MergedIds) :
    (rebuiltContracts ids).fields =
      ids.required.map (fun id => (TaskId.variableName id, rebuiltContract id)) ++
        ids.optional.map fun id => (TaskId.variableName id, rebuiltIfPresent id) :=
  fields_record _

theorem keys_rebuiltFields (ids : MergedIds) :
    (ids.required.map (fun id => (TaskId.variableName id, rebuiltContract id)) ++
      ids.optional.map fun id => (TaskId.variableName id, rebuiltIfPresent id)).map Prod.fst =
        ids.all.map TaskId.variableName := by
  unfold MergedIds.all
  rw [List.map_append, List.map_append, List.map_map, List.map_map]
  rfl

theorem names_idMembers {member : Bool → String → Member Ty} {ids : MergedIds}
    (h : ∀ isOptional id, (member isOptional id).name = TaskId.variableName id) :
    (idMembers member ids).map Member.name = ids.all.map TaskId.variableName := by
  unfold idMembers MergedIds.all
  rw [List.map_append, List.map_append, List.map_map, List.map_map]
  exact congrArg₂ _ (List.map_congr_left fun id _ => h false id)
    (List.map_congr_left fun id _ => h true id)

theorem keys?_rebuiltContracts (ids : MergedIds) :
    (rebuiltContracts ids).keys? = some ((idMembers contractMember ids).map Member.name) := by
  unfold rebuiltContracts
  rw [keys?_record, keys_rebuiltFields, names_idMembers fun _ _ => rfl]

theorem atCallees_rebuiltContract (id : String) :
    (rebuiltContract id).atCallees = [TaskId.typeName id] := rfl

theorem atCallees_rebuiltIfPresent (id : String) :
    (rebuiltIfPresent id).atCallees = [TaskId.typeName id] := rfl

/-- The contracts whose `at` is called, task by task. -/
theorem atCallees_rebuiltContracts (ids : MergedIds) :
    ((rebuiltContracts ids).fields.flatMap fun f => f.2.atCallees) =
      ids.all.map TaskId.typeName := by
  rw [fields_rebuiltContracts, List.flatMap_append, List.flatMap_map, List.flatMap_map]
  simp only [atCallees_rebuiltContract, atCallees_rebuiltIfPresent]
  rw [← List.map_eq_flatMap, ← List.map_eq_flatMap, ← List.map_append]
  rfl

/-- The recorded results that are spread, task by task. -/
theorem spreads_rebuiltContracts (ids : MergedIds) :
    ((rebuiltContracts ids).fields.map fun f => f.2.unguarded.spreads) =
      ids.all.map fun id => [recordedContract id] := by
  rw [fields_rebuiltContracts, List.map_append, List.map_map, List.map_map, MergedIds.all,
    List.map_append]
  rfl

/-- **The members and the values of the contracts belong together**, one by one. -/
theorem matches_rebuiltContracts {contracts : List String} {ids : MergedIds}
    (h : ∀ id ∈ ids.all, isBound contracts id = true) :
    List.Forall₂ (MatchesMember contracts) (idMembers contractMember ids)
      (rebuiltContracts ids).fields := by
  have hcontract : ∀ id ∈ ids.all, TaskId.typeName id ∈ contracts := by
    intro id hid
    have hbound := h id hid
    unfold isBound at hbound
    rwa [List.contains_iff_mem] at hbound
  rw [fields_rebuiltContracts]
  unfold idMembers
  -- Both lists go through the required tasks first and through the optional ones then.
  refine List.rel_append ?_ ?_
  · rw [List.forall₂_map_left_iff, List.forall₂_map_right_iff, List.forall₂_same]
    intro id hid
    exact ⟨rfl, rfl, TaskId.typeName id, hcontract id (List.mem_append_left _ hid),
      atCallees_rebuiltContract id, rfl⟩
  · rw [List.forall₂_map_left_iff, List.forall₂_map_right_iff, List.forall₂_same]
    intro id hid
    exact ⟨rfl, rfl, TaskId.typeName id, hcontract id (List.mem_append_right _ hid),
      atCallees_rebuiltIfPresent id, rfl⟩

theorem isBound_of_mem_retain {m : MergedIds} {contracts : List String} {id : String}
    (h : id ∈ (m.retain (isBound contracts)).all) : isBound contracts id = true := by
  rcases List.mem_append.1 h with h | h
  · exact (List.mem_filter.1 h).2
  · exact (List.mem_filter.1 h).2

/-! ## The unit -/

/-- The items of the unit are imports and three declarations. -/
theorem items_deploymentsUnit (m : Manifests) (imports : List ManifestImport)
    (contracts : List String) :
    ∃ front, (deploymentsUnit m imports contracts).items = front ++
        [.aliasDecl (deploymentsType (boundSchema m contracts)),
          .functionDecl (rebuild (boundSchema m contracts)), .functionDecl (selection imports)] ∧
      ∀ item ∈ front, ∃ decl, item = .importDecl decl := by
  refine ⟨_, rfl, fun item hitem => ?_⟩
  rcases List.mem_append.1 hitem with hitem | hmanifest
  · rcases List.mem_append.1 hitem with hfixed | hused
    · rcases List.mem_cons.1 hfixed with rfl | hfixed
      · exact ⟨_, rfl⟩
      · exact ⟨_, List.mem_singleton.1 hfixed⟩
    · split at hused
      · exact absurd hused List.not_mem_nil
      · exact ⟨_, List.mem_singleton.1 hused⟩
  · obtain ⟨i, -, rfl⟩ := List.mem_map.1 hmanifest
    exact ⟨_, rfl⟩

theorem aliasDecl?_deploymentsUnit (m : Manifests) (imports : List ManifestImport)
    (contracts : List String) :
    (deploymentsUnit m imports contracts).aliasDecl? "Deployments" =
      some (deploymentsType (boundSchema m contracts)) := by
  obtain ⟨front, hitems, hfront⟩ := items_deploymentsUnit m imports contracts
  unfold SourceUnit.aliasDecl? findAlias?
  rw [hitems, List.findSome?_append, List.findSome?_eq_none_iff.2]
  · rfl
  · intro item hitem
    obtain ⟨decl, rfl⟩ := hfront item hitem
    rfl

theorem functionDecl?_deploymentsUnit (m : Manifests) (imports : List ManifestImport)
    (contracts : List String) :
    (deploymentsUnit m imports contracts).functionDecl? "toDeployments" =
      some (rebuild (boundSchema m contracts)) := by
  obtain ⟨front, hitems, hfront⟩ := items_deploymentsUnit m imports contracts
  unfold SourceUnit.functionDecl?
  rw [hitems, List.findSome?_append, List.findSome?_eq_none_iff.2]
  · rfl
  · intro item hitem
    obtain ⟨decl, rfl⟩ := hfront item hitem
    rfl

theorem namesFrom_deploymentsUnit (m : Manifests) (imports : List ManifestImport)
    (contracts : List String) :
    (deploymentsUnit m imports contracts).namesFrom "." =
      if (usedContracts (boundSchema m contracts)).isEmpty then []
      else [(usedContracts (boundSchema m contracts)).flatMap fun T => [T, instanceName T]] := by
  have hmanifests : (imports.map fun i =>
      Item.importDecl ⟨.default i.binding, i.source⟩).filterMap (Item.namesFrom? ".") = [] := by
    rw [List.filterMap_map, List.filterMap_eq_nil_iff]
    exact fun _ _ => rfl
  have hdeclared : [Item.aliasDecl (deploymentsType (boundSchema m contracts)),
      .functionDecl (rebuild (boundSchema m contracts)),
      .functionDecl (selection imports)].filterMap (Item.namesFrom? ".") = [] := rfl
  unfold SourceUnit.namesFrom deploymentsUnit
  dsimp only
  rw [List.filterMap_append, List.filterMap_append, List.filterMap_append, hmanifests, hdeclared]
  split <;> rfl

/-! ## Scripts -/

theorem member?_deploymentsType (s : Schema) :
    (deploymentsType s).type.member? "contracts" =
        some (.object (idMembers contractMember s.contracts)) ∧
      (deploymentsType s).type.member? "scripts" =
        if s.hasScripts then some (.object (idMembers scriptMember s.scripts)) else none := by
  unfold deploymentsType
  cases s.hasScripts <;> exact ⟨rfl, rfl⟩

/-- The record that is returned has the declared contracts, and scripts if there are any. -/
theorem returned?_rebuild (s : Schema) :
    ∃ result, returned? (rebuild s).body = some result ∧
      result.field? "contracts" =
        some (.cast (.ident "contracts") (.raw "Deployments[\"contracts\"]")) ∧
      result.field? "scripts" =
        if s.hasScripts then some (rebuiltScripts s.scripts) else none := by
  refine ⟨_, rfl, ?_⟩
  cases s.hasScripts <;> exact ⟨rfl, rfl⟩

theorem keys?_rebuiltScripts (ids : MergedIds) :
    (rebuiltScripts ids).keys? = some ((idMembers scriptMember ids).map Member.name) := by
  unfold rebuiltScripts
  rw [keys?_record, names_idMembers fun _ _ => rfl, List.map_map]
  rfl

/-! ## All parts -/

theorem importsContracts_deploymentsUnit (m : Manifests) (imports : List ManifestImport)
    (contracts : List String) :
    ImportsContracts (deploymentsUnit m imports contracts)
      ((rebuiltContracts (boundSchema m contracts).contracts).fields.flatMap fun f => f.2.atCallees)
      (usedContracts (boundSchema m contracts)) := by
  rw [atCallees_rebuiltContracts]
  exact ⟨nodup_distinct _, fun _ => mem_distinct, distinct_ordered _,
    namesFrom_deploymentsUnit m imports contracts⟩

/-- **The parts of the deployments unit agree.** -/
theorem deployment_parts (m : Manifests) (imports : List ManifestImport)
    (contracts : List String) :
    ∃ (type : TypeAlias) (f : FunctionDecl) (members : List (Member Ty)) (value result : Expr),
      (deploymentsUnit m imports contracts).aliasDecl? "Deployments" = some type ∧
      (deploymentsUnit m imports contracts).functionDecl? "toDeployments" = some f ∧
      type.type.member? "contracts" = some (.object members) ∧
      declared? "contracts" f.body = some value ∧ returned? f.body = some result ∧
      result.field? "contracts" =
        some (.cast (.ident "contracts") (.raw "Deployments[\"contracts\"]")) ∧
      PartsAgree (deploymentsUnit m imports contracts) contracts
        (m.schema.contracts.retain (isBound contracts)) members value type.type result := by
  obtain ⟨hcontracts, hscripts⟩ := member?_deploymentsType (boundSchema m contracts)
  obtain ⟨result, hresult, hfield, hscriptsField⟩ := returned?_rebuild (boundSchema m contracts)
  have hnames : (idMembers contractMember (m.schema.contracts.retain (isBound contracts))).map
      Member.name = _ := names_idMembers fun _ _ => rfl
  refine ⟨_, _, _, _, result, aliasDecl?_deploymentsUnit m imports contracts,
    functionDecl?_deploymentsUnit m imports contracts, hcontracts, rfl, hresult, hfield, hnames,
    keys?_rebuiltContracts _, matches_rebuiltContracts fun _ => isBound_of_mem_retain,
    spreads_rebuiltContracts _,
    ⟨_, importsContracts_deploymentsUnit m imports contracts⟩, ?_, ?_⟩
  · rw [hscripts, hscriptsField]
    split <;> rfl
  · -- Scripts are in the type and in the value under one condition.
    intro scriptsType scriptsValue htype hvalue
    rw [hscripts] at htype
    rw [hscriptsField] at hvalue
    split at htype
    · next hs =>
      rw [if_pos hs] at hvalue
      cases htype
      cases hvalue
      exact ⟨_, rfl, keys?_rebuiltScripts _⟩
    · cases htype

end TypedBindings.Binding
