import Mathlib.Data.List.Nodup
import Mathlib.Tactic.Tauto
import TypedBindings.Binding.Contract
import TypedBindings.Proofs.Artifact.Lowering
import TypedBindings.Proofs.TypeScript.Names

/-!
# The names in a contract's unit

Names come from the contract, its functions, events, constants and enums, some with an ending, and
stand beside fixed ones.

* `boundNames_nodup_iff`: nothing is bound twice at the top, unless the contract has a name that its
  unit needs for something else.
* `capturesImport_iff`: the one event whose type gets in the way of an import.
* `contract_names`: the names in each scope of the unit.
-/

namespace TypedBindings.Binding

open Abi TypeScript

/-! ## Endings -/

theorem ending_suffix (front ending : String) : ending.toList <:+ (front ++ ending).toList := by
  rw [String.toList_append]
  exact List.suffix_append ..

/-- A name with an ending that none of the others has is none of them. -/
theorem not_mem_of_ending {names : List String} {ending : String}
    (h : ∀ name ∈ names, ¬ ending.toList <:+ name.toList) (front : String) :
    front ++ ending ∉ names := fun hmem => h _ hmem (ending_suffix front ending)

/-- Events of different names have types of different names. -/
theorem eventTypeName_injective : Function.Injective eventTypeName := fun _ _ h =>
  (String.append_left_inj _).1 h

/-- Fixed names and the names that events give rise to are distinct, since only these end so. -/
theorem nodup_around_events {front back events : List String} {f : String → String}
    (hf : Function.Injective f) (hending : ∀ e, ∃ start, f e = start ++ "Event")
    (hfixed : (front ++ back).Nodup)
    (hother : ∀ name ∈ front ++ back, ¬ "Event".toList <:+ name.toList) (hevents : events.Nodup) :
    (front ++ events.map f ++ back).Nodup := by
  have hmem : ∀ e, f e ∉ front ++ back := by
    intro e
    obtain ⟨start, hstart⟩ := hending e
    rw [hstart]
    exact not_mem_of_ending hother start
  have hperm : (front ++ events.map f ++ back).Perm (events.map f ++ (front ++ back)) := by
    rw [List.append_assoc]
    exact List.perm_append_comm_assoc ..
  rw [hperm.nodup_iff, List.nodup_append']
  refine ⟨(List.nodup_map_iff hf).2 hevents, hfixed, fun name hname hin => ?_⟩
  obtain ⟨e, -, rfl⟩ := List.mem_map.1 hname
  exact hmem e hin

/-! ## The top of the unit -/

/-- The names that the unit of every contract imports. -/
def fixedImports : List String :=
  contractImports ++
    ["DeployContractExecutionResult", "getContractByCodeHash", "loadContractInstanceFromDeployments"]

/-- The names that the unit of every contract binds. -/
def reservedNames : List String := fixedImports ++ ["Factory"]

/-- The names that a contract's unit binds for the contract. -/
def ownNames (contract : String) : List String :=
  [contract, contractJsonName contract, typesName contract, instanceName contract]

/-- The unit binds fixed names, and those that it makes of the contract's. -/
theorem boundNames_contractUnit (c : Contract) (info : CodeInfo) (path : String) :
    (contractUnit c info path).boundNames.Perm (reservedNames ++ ownNames c.name) := by
  have hbound : (contractUnit c info path).boundNames =
      contractImports ++ ["DeployContractExecutionResult", contractJsonName c.name,
        "getContractByCodeHash", "loadContractInstanceFromDeployments", typesName c.name, "Factory",
        c.name, instanceName c.name] := rfl
  rw [hbound, reservedNames, fixedImports, ownNames, List.append_assoc, List.append_assoc]
  refine List.Perm.append_left _ (List.perm_iff_count.2 fun name => ?_)
  simp only [List.count_cons, List.count_nil, List.count_append]
  omega

/-- The names made of the contract's differ by their endings. -/
theorem nodup_ownNames (contract : String) : (ownNames contract).Nodup := by
  have hown : ownNames contract =
      ["", "ContractJson", "Types", "Instance"].map (contract ++ ·) := by
    unfold ownNames contractJsonName typesName instanceName
    simp
  have hinj : Function.Injective (contract ++ ·) := fun _ _ h => (String.append_right_inj _).1 h
  rw [hown]
  exact (List.nodup_map_iff hinj).2 (by decide)

/-- **What is bound at the top is bound once**, unless the contract's name is reserved. -/
theorem boundNames_nodup_iff (c : Contract) (info : CodeInfo) (path : String) :
    (contractUnit c info path).boundNames.Nodup ↔ c.name ∉ reservedNames := by
  have hreserved : reservedNames.Nodup := by decide
  have hjson : contractJsonName c.name ∉ reservedNames := not_mem_of_ending (by decide) c.name
  have htypes : typesName c.name ∉ reservedNames := not_mem_of_ending (by decide) c.name
  rw [(boundNames_contractUnit c info path).nodup_iff, List.nodup_append']
  constructor
  · rintro ⟨-, -, hdisjoint⟩ hname
    exact hdisjoint hname List.mem_cons_self
  · intro hname
    -- `ContractInstance` is imported, but a contract that gives rise to it has a reserved name itself.
    have hinstance : instanceName c.name ∉ reservedNames := by
      intro hmem
      have hends : ∀ name ∈ reservedNames, "Instance".toList <:+ name.toList →
          name = "Contract" ++ "Instance" := by decide
      have heq : c.name ++ "Instance" = "Contract" ++ "Instance" :=
        hends _ hmem (ending_suffix c.name "Instance")
      rw [(String.append_left_inj _).1 heq] at hname
      exact hname (by decide)
    refine ⟨hreserved, nodup_ownNames c.name, fun name hin hown => ?_⟩
    unfold ownNames at hown
    simp only [List.mem_cons, List.not_mem_nil, or_false] at hown
    rcases hown with rfl | rfl | rfl | rfl
    · exact hname hin
    · exact hjson hin
    · exact htypes hin
    · exact hinstance hin

/-! ## The namespace -/

theorem typeNames_append (items more : List Item) :
    typeNames (items ++ more) = typeNames items ++ typeNames more := List.filterMap_append

theorem typeNames_events (events : List Event) :
    typeNames (events.map fun e => .aliasDecl (eventType e)) =
      (events.map Event.name).map eventTypeName := by
  unfold typeNames
  rw [List.filterMap_map, List.map_map]
  exact congrFun List.filterMap_eq_map' events

/-- The table of calls and what looks into it. -/
def callTypeNames : List String :=
  ["CallMethodTable", "CallMethodParams", "CallMethodResult", "MultiCallParams",
    "MultiCallResults"]

/-- The names of the types that do not belong to an event. -/
def fixedTypeNames : List String :=
  ["Fields", "State", "CallMethodTable", "CallMethodParams", "CallMethodResult", "MultiCallParams",
    "MultiCallResults"]

theorem typeNames_stateTypes (c : Contract) :
    (typeNames (stateTypes c)).Sublist ["Fields", "State"] := by
  unfold stateTypes
  split
  · exact List.Sublist.refl _
  · exact List.sublist_cons_self ..

theorem typeNames_callTypes (c : Contract) :
    (typeNames (if c.callable.isEmpty then [] else callTypes c.callable)).Sublist
      callTypeNames := by
  split
  · exact List.nil_sublist _
  · exact List.Sublist.refl _

/-- The types of the namespace are fixed ones and one for each event. -/
theorem typeNames_contractTypes (c : Contract) :
    (typeNames (contractTypes c)).Sublist
      (["Fields", "State"] ++ (c.events.map Event.name).map eventTypeName ++ callTypeNames) := by
  unfold contractTypes
  rw [typeNames_append, typeNames_append, typeNames_events]
  exact ((typeNames_stateTypes c).append (List.Sublist.refl _)).append (typeNames_callTypes c)

/-- **When the namespace declares no type twice.** -/
theorem nodup_typeNames_iff (c : Contract) :
    (typeNames (contractTypes c)).Nodup ↔ (c.events.map Event.name).Nodup := by
  constructor
  · intro h
    have hsub : ((c.events.map Event.name).map eventTypeName).Sublist
        (typeNames (contractTypes c)) := by
      unfold contractTypes
      rw [typeNames_append, typeNames_append, typeNames_events]
      exact (List.sublist_append_right ..).trans (List.sublist_append_left ..)
    exact (List.nodup_map_iff eventTypeName_injective).1 (hsub.nodup h)
  · intro h
    exact (typeNames_contractTypes c).nodup (nodup_around_events eventTypeName_injective
      (fun e => ⟨e, rfl⟩) (by decide) (by decide) h)

/-- A type of the namespace is fixed or that of an event. -/
theorem mem_typeNames {c : Contract} {name : String} (h : name ∈ typeNames (contractTypes c)) :
    name ∈ fixedTypeNames ∨ ∃ e ∈ c.events, name = eventTypeName e.name := by
  have hmem := (typeNames_contractTypes c).subset h
  rw [List.mem_append, List.mem_append, List.map_map] at hmem
  rcases hmem with (hfixed | hevent) | hfixed
  · exact Or.inl (List.mem_append_left callTypeNames hfixed)
  · obtain ⟨e, he, rfl⟩ := List.mem_map.1 hevent
    exact Or.inr ⟨e, he, rfl⟩
  · exact Or.inl (List.mem_append_right ["Fields", "State"] hfixed)

/-- Only the import of the compiled artifact depends on the contract. -/
theorem mem_importedNames {c : Contract} {info : CodeInfo} {path name : String} :
    name ∈ (contractUnit c info path).importedNames ↔
      name ∈ fixedImports ∨ name = contractJsonName c.name := by
  have himported : (contractUnit c info path).importedNames =
      contractImports ++ ["DeployContractExecutionResult", contractJsonName c.name,
        "getContractByCodeHash", "loadContractInstanceFromDeployments"] := rfl
  rw [himported, fixedImports]
  simp only [List.mem_append, List.mem_cons, List.not_mem_nil, or_false]
  tauto

/-- The only interface of the namespace is the table of calls. -/
theorem members_of_interface {c : Contract} {i : Interface}
    (h : .interfaceDecl i ∈ contractTypes c) : i.members = c.callable.map callEntry := by
  rcases List.mem_append.1 h with h | hcall
  · rcases List.mem_append.1 h with hstate | hevent
    · unfold stateTypes at hstate
      split at hstate <;> simp at hstate
    · obtain ⟨e, -, he⟩ := List.mem_map.1 hevent
      cases he
  · split at hcall
    · exact absurd hcall List.not_mem_nil
    · unfold callTypes at hcall
      simp only [List.mem_cons, List.not_mem_nil, or_false, reduceCtorEq] at hcall
      cases hcall
      rfl

/-! ## What the namespace refers to -/

/-- The names in the declarations of a namespace, keywords included. -/
def knownReferences : List String :=
  ["bigint", "boolean", "Address", "HexString", "null", "any", "undefined", "T", "Name",
    "MaybeName", "extends", "keyof", "in", "Fields", "ContractState", "Omit", "Partial",
    "ContractEvent", "CallContractParams", "CallContractResult", "CallMethodTable",
    "MultiCallParams"]

/-- The type of a value is written with names of the library. -/
theorem refersOnlyTo_typeOf (type : ValueType) : (typeOf type).RefersOnlyTo knownReferences := by
  induction type with
  | scalar kind => cases kind <;> exact Ty.refersOnlyTo_named.2 (by decide)
  | array element length ih =>
    refine Ty.refersOnlyTo_tuple.2 fun type htype => ?_
    rw [List.eq_of_mem_replicate htype]
    exact ih

theorem refersOnlyTo_recordType (entries : List (String × ValueType)) :
    (recordType entries).RefersOnlyTo knownReferences := by
  refine Ty.refersOnlyTo_object.2 fun m hm => ?_
  obtain ⟨e, -, rfl⟩ := List.mem_map.1 hm
  exact refersOnlyTo_typeOf e.2

theorem refersOnlyTo_returnsType (types : List ValueType) :
    (returnsType types).RefersOnlyTo knownReferences := by
  match types with
  | [] => exact Ty.refersOnlyTo_named.2 (by decide)
  | [type] => exact refersOnlyTo_typeOf type
  | first :: second :: rest =>
    refine Ty.refersOnlyTo_tuple.2 fun type htype => ?_
    obtain ⟨t, -, rfl⟩ := List.mem_map.1 htype
    exact refersOnlyTo_typeOf t

theorem references_stateTypes (c : Contract) :
    ∀ item ∈ stateTypes c, ∀ name ∈ item.references, name ∈ knownReferences := by
  unfold stateTypes
  split
  · rw [List.forall_mem_cons, List.forall_mem_singleton]
    exact ⟨refersOnlyTo_recordType _, by decide⟩
  · rw [List.forall_mem_singleton]
    decide

theorem references_eventType_subset (e : Event) :
    ∀ name ∈ (Item.aliasDecl (eventType e)).references, name ∈ knownReferences := by
  have htype : (eventType e).type.RefersOnlyTo knownReferences := by
    unfold eventType
    dsimp only
    split
    · exact Ty.refersOnlyTo_without.2 ⟨by decide, Ty.refersOnlyTo_named.2 (by decide)⟩
    · exact Ty.refersOnlyTo_generic.2
        ⟨by decide, List.forall_mem_singleton.2 (refersOnlyTo_recordType _)⟩
  exact htype

theorem refersOnlyTo_callEntry (f : Function) :
    (callEntry f).type.RefersOnlyTo knownReferences := by
  refine Ty.refersOnlyTo_object.2 ?_
  rw [List.forall_mem_cons, List.forall_mem_singleton]
  constructor
  · split
    · exact Ty.refersOnlyTo_generic.2
        ⟨by decide, List.forall_mem_singleton.2 (refersOnlyTo_recordType _)⟩
    · exact Ty.refersOnlyTo_without.2 ⟨by decide, by unfold Ty.RefersOnlyTo; decide⟩
  · exact Ty.refersOnlyTo_generic.2
      ⟨by decide, List.forall_mem_singleton.2 (refersOnlyTo_returnsType _)⟩

theorem references_callTypes (callable : List Function) :
    ∀ item ∈ callTypes callable, ∀ name ∈ item.references, name ∈ knownReferences := by
  unfold callTypes
  rw [List.forall_mem_cons]
  constructor
  · refine Ty.refersOnlyTo_members.2 fun m hm => ?_
    obtain ⟨f, -, rfl⟩ := List.mem_map.1 hm
    exact refersOnlyTo_callEntry f
  · decide +kernel

/-- The namespace refers to fixed names only, none of which a contract can choose. -/
theorem references_contractTypes (c : Contract) :
    ∀ item ∈ contractTypes c, ∀ name ∈ item.references, name ∈ knownReferences := by
  intro item hitem
  rcases List.mem_append.1 hitem with hitem | hcall
  · rcases List.mem_append.1 hitem with hstate | hevent
    · exact references_stateTypes c item hstate
    · obtain ⟨e, -, rfl⟩ := List.mem_map.1 hevent
      exact references_eventType_subset e
  · split at hcall
    · exact absurd hcall List.not_mem_nil
    · exact references_callTypes _ item hcall

/-- The type of an event refers to the type of all events. -/
theorem references_eventType (e : Event) :
    "ContractEvent" ∈ (Item.aliasDecl (eventType e)).references := by
  have htype : "ContractEvent" ∈ (eventType e).type.references := by
    unfold eventType
    dsimp only
    split
    · exact List.mem_cons_of_mem _ List.mem_cons_self
    · exact List.mem_cons_self
  exact List.mem_append_right _ htype

/-- **The only event whose type captures an import** is one named `Contract`. -/
theorem capturesImport_iff (c : Contract) (info : CodeInfo) (path : String) :
    (contractUnit c info path).CapturesImport (contractTypes c) ↔
      "Contract" ∈ c.events.map Event.name := by
  constructor
  · rintro ⟨name, hname, himported, hreference⟩
    obtain ⟨item, hitem, hreference⟩ := List.mem_flatMap.1 hreference
    have hknown := references_contractTypes c item hitem name hreference
    -- A fixed type is none of the imports, and nothing refers to the import of the artifact.
    rcases mem_importedNames.1 himported with himported | rfl
    · rcases mem_typeNames hname with hfixed | ⟨e, he, rfl⟩
      · have hother : ∀ name ∈ fixedTypeNames, name ∉ fixedImports := by decide
        exact absurd himported (hother name hfixed)
      · -- Of the names that the namespace refers to, one ends as the types of events do.
        have honly : ∀ name ∈ knownReferences, "Event".toList <:+ name.toList →
            name = "Contract" ++ "Event" := by decide
        have heq : e.name ++ "Event" = "Contract" ++ "Event" :=
          honly _ hknown (ending_suffix e.name "Event")
        rw [← (String.append_left_inj _).1 heq]
        exact List.mem_map_of_mem he
    · exact absurd hknown (not_mem_of_ending (by decide) c.name)
  · intro h
    obtain ⟨e, he, hname⟩ := List.mem_map.1 h
    have hitem : Item.aliasDecl (eventType e) ∈ contractTypes c :=
      List.mem_append_left _ (List.mem_append_right _ (List.mem_map_of_mem he))
    have hdeclared : (eventType e).name = "ContractEvent" := by
      unfold eventType
      dsimp only
      rw [hname]
      rfl
    refine ⟨"ContractEvent", ?_, ?_, List.mem_flatMap.2 ⟨_, hitem, references_eventType e⟩⟩
    · exact List.mem_filterMap.2 ⟨_, hitem, congrArg some hdeclared⟩
    · exact mem_importedNames.2 (Or.inl (by decide))

/-! ## The classes -/

theorem names_propertyIf (wanted : Bool) (name : String) (value : Expr) :
    ((propertyIf wanted name value).map ClassMember.name).Sublist [name] := by
  cases wanted
  · exact List.nil_sublist _
  · exact List.Sublist.refl _

theorem names_methodIf (wanted : Bool) (m : Method) :
    ((methodIf wanted m).map ClassMember.name).Sublist [m.name] := by
  cases wanted
  · exact List.nil_sublist _
  · exact List.Sublist.refl _

/-- The members of the factory have fixed names that all differ. -/
theorem nodup_factory (c : Contract) : ((factory c).members.map ClassMember.name).Nodup := by
  have hsub : ((factory c).members.map ClassMember.name).Sublist
      (["getInitialFieldsWithDefaultValues"] ++ ["eventIndex"] ++ ["consts"] ++ ["at"] ++
        ["tests"]) := by
    unfold factory
    simp only [List.map_append]
    exact ((((names_methodIf _ _).append (names_propertyIf _ _ _)).append
      (names_propertyIf _ _ _)).append (List.Sublist.refl _)).append (names_propertyIf _ _ _)
  exact hsub.nodup (by decide)

/-- The name of the method that subscribes to an event. -/
def subscribeName (event : String) : String := "subscribe" ++ eventTypeName event

/-- Events of different names have subscriptions of different names. -/
theorem subscribeName_injective : Function.Injective subscribeName := fun _ _ h =>
  eventTypeName_injective ((String.append_right_inj _).1 h)

/-- There is one subscription for each event, in their order. -/
theorem names_subscriptions (c : Contract) :
    (c.events.map fun e => ClassMember.method (subscribe c e)).map ClassMember.name =
      (c.events.map Event.name).map subscribeName := by
  rw [List.map_map, List.map_map]
  rfl

/-- The members of the class of instances, those that a contract has not included. -/
theorem names_instanceClass (c : Contract) :
    ((instanceClass c).members.map ClassMember.name).Sublist
      (["constructor", "in", "fetchState"] ++ ["getContractEventsCurrentCount"] ++
        (c.events.map Event.name).map subscribeName ++ ["subscribeAllEvents"] ++ ["methods"] ++
          ["multicall"]) := by
  unfold instanceClass
  simp only [List.map_append, names_subscriptions]
  exact (((((List.Sublist.refl _).append (names_methodIf _ _)).append (List.Sublist.refl _)).append
    (names_methodIf _ _)).append (names_propertyIf _ _ _)).append (names_methodIf _ _)

/-- **When the class of instances has no two members of one name.** -/
theorem nodup_instanceClass_iff (c : Contract) :
    ((instanceClass c).members.map ClassMember.name).Nodup ↔ (c.events.map Event.name).Nodup := by
  constructor
  · intro h
    have hsub : ((c.events.map Event.name).map subscribeName).Sublist
        ((instanceClass c).members.map ClassMember.name) := by
      unfold instanceClass
      simp only [List.map_append, names_subscriptions, List.append_assoc]
      exact (List.sublist_append_left ..).trans
        ((List.sublist_append_right ..).trans (List.sublist_append_right ..))
    exact (List.nodup_map_iff subscribeName_injective).1 (hsub.nodup h)
  · intro h
    have hending : ∀ e, ∃ start, subscribeName e = start ++ "Event" :=
      fun e => ⟨"subscribe" ++ e, (String.append_assoc ..).symm⟩
    refine (names_instanceClass c).nodup ?_
    rw [List.append_assoc _ ["subscribeAllEvents"], List.append_assoc _ _ ["multicall"]]
    exact nodup_around_events subscribeName_injective hending (by decide) (by decide) h

/-! ## Object literals -/

mutual

/-- A constant has no object literal in it. -/
theorem keys?_literal (value : Constant) : (literal value).parts.filterMap Expr.keys? = [] :=
  match value with
  | .bool _ => rfl
  | .u256 _ => rfl
  | .i256 _ => rfl
  | .address _ => rfl
  | .byteVec _ => rfl
  | .array items => keys?_literals items

/-- Constants are emitted without objects, so they add no keys. -/
theorem keys?_literals (items : List Constant) :
    (partsOfAll (literals items)).filterMap Expr.keys? = [] :=
  match items with
  | [] => rfl
  | item :: rest => by
    rw [literals, partsOfAll, List.filterMap_append, keys?_literal item, keys?_literals rest]
    rfl

end

/-- The table of an enum has its members as keys. -/
theorem literalKeys_enumTable (members : List NamedConstant) :
    (Expr.record (members.map fun m => (m.name, literal m.value))).literalKeys =
      [members.map NamedConstant.name] := by
  have hnone : (members.map fun m => (m.name, literal m.value)).flatMap
      (fun f => f.2.literalKeys) = [] := by
    rw [List.flatMap_map, List.flatMap_eq_nil_iff]
    exact fun m _ => keys?_literal m.value
  rw [literalKeys_record, hnone, List.map_map]
  rfl

/-- **The keys in the table of constants**: constants and enums stand in the table, the members of
each enum in one of its own. -/
theorem literalKeys_constants (c : Contract) :
    (constants c).literalKeys =
      (c.constants.map NamedConstant.name ++ c.enums.map Enum.name) ::
        c.enums.map fun e => e.members.map NamedConstant.name := by
  have hnone : (c.constants.map fun d => (d.name, literal d.value)).flatMap
      (fun f => f.2.literalKeys) = [] := by
    rw [List.flatMap_map, List.flatMap_eq_nil_iff]
    exact fun d _ => keys?_literal d.value
  unfold constants
  rw [literalKeys_record, List.map_append, List.map_map, List.map_map, List.flatMap_append, hnone,
    List.nil_append, List.flatMap_map]
  simp only [literalKeys_enumTable]
  rw [← List.map_eq_flatMap]
  rfl

/-- **The keys in the table of events.** -/
theorem literalKeys_eventIndex (c : Contract) :
    (eventIndex c).literalKeys = [c.events.map Event.name] := by
  have hnames : c.events.zipIdx.map (Event.name ∘ Prod.fst) = c.events.map Event.name := by
    rw [← List.map_map, List.zipIdx_map_fst]
  have hnone : c.events.zipIdx.flatMap (fun p => (Expr.num p.2).literalKeys) = [] :=
    List.flatMap_eq_nil_iff.mpr fun _ _ => rfl
  unfold eventIndex
  rw [literalKeys_record, List.map_map, List.flatMap_map]
  exact congrArg₂ List.cons hnames hnone

/-- The one object literal in a stub stands for missing arguments. -/
theorem hasDistinctKeys_of_stub {e : Expr} (isOptional : Bool)
    (h : e.literalKeys = if isOptional then [[]] else []) : e.HasDistinctKeys := by
  unfold Expr.HasDistinctKeys
  rw [h]
  cases isOptional <;> decide

/-- A stub has no keys that a contract can choose. -/
theorem hasDistinctKeys_testStub (c : Contract) (f : Function) : (testStub c f).HasDistinctKeys := by
  refine hasDistinctKeys_of_stub (isTestOptional c f) ?_
  unfold testStub stubArgument
  cases isTestOptional c f <;> rfl

theorem hasDistinctKeys_callStub (c : Contract) (f : Function) : (callStub c f).HasDistinctKeys := by
  refine hasDistinctKeys_of_stub (!f.hasParams) ?_
  unfold callStub stubArgument
  cases f.hasParams <;> rfl

/-- A table of stubs, one for each function. -/
theorem hasDistinctKeys_stubs {functions : List Function} {stub : Function → Expr}
    (hnames : (functions.map Function.name).Nodup) (hstub : ∀ f, (stub f).HasDistinctKeys) :
    (Expr.record (functions.map fun f => (f.name, stub f))).HasDistinctKeys := by
  refine hasDistinctKeys_record_iff.2 ⟨?_, fun f hf => ?_⟩
  · rw [List.map_map]
    exact hnames
  · obtain ⟨g, -, rfl⟩ := List.mem_map.1 hf
    exact hstub g

/-- The keys of each object literal in a member of a class. -/
def memberKeys (m : ClassMember) : List (List String) := m.parts.filterMap Expr.keys?

theorem mem_propertyIf {wanted : Bool} {name : String} {value : Expr} {m : ClassMember}
    (h : m ∈ propertyIf wanted name value) : m = .property name value := by
  cases wanted
  · exact absurd h List.not_mem_nil
  · exact List.mem_singleton.1 h

theorem mem_methodIf {wanted : Bool} {method : Method} {m : ClassMember}
    (h : m ∈ methodIf wanted method) : m = .method method := by
  cases wanted
  · exact absurd h List.not_mem_nil
  · exact List.mem_singleton.1 h

/-- **The object literals in a member of a class**: the keys of the tables of events, of constants and
enums and of each enum are their names, each distinct exactly if these are. No key stands twice in
any other. -/
structure HasOwnKeys (c : Contract) (m : ClassMember) : Prop where
  events : m.name = "eventIndex" → memberKeys m = [c.events.map Event.name]
  constants : m.name = "consts" →
    memberKeys m = (c.constants.map NamedConstant.name ++ c.enums.map Enum.name) ::
      c.enums.map fun e => e.members.map NamedConstant.name
  rest : m.name ≠ "eventIndex" → m.name ≠ "consts" → ∀ keys ∈ memberKeys m, keys.Nodup

/-- Whether a name is that of no table of events or constants. -/
def isOtherName (name : String) : Bool := name ≠ "eventIndex" ∧ name ≠ "consts"

/-- A member of which no condition is asked needs distinct keys. -/
theorem hasOwnKeys_of_other {c : Contract} {m : ClassMember} (name : String) (hm : m.name = name)
    (hname : isOtherName name = true) (h : ∀ keys ∈ memberKeys m, keys.Nodup) :
    HasOwnKeys c m := by
  obtain ⟨hevents, hconstants⟩ := of_decide_eq_true hname
  exact ⟨fun h => absurd (hm.symm.trans h) hevents, fun h => absurd (hm.symm.trans h) hconstants,
    fun _ _ => h⟩

/-- A member without an object literal. -/
theorem hasOwnKeys_of_nil {c : Contract} {m : ClassMember} (name : String) (hm : m.name = name)
    (hname : isOtherName name = true) (h : memberKeys m = []) : HasOwnKeys c m := by
  refine hasOwnKeys_of_other name hm hname fun keys hkeys => ?_
  rw [h] at hkeys
  exact absurd hkeys List.not_mem_nil

/-- The index of events is one table, with the names of the events as keys. -/
theorem hasOwnKeys_eventIndex (c : Contract) :
    HasOwnKeys c (.property "eventIndex" (eventIndex c)) := by
  have hne : "eventIndex" ≠ "consts" := by decide
  exact ⟨fun _ => literalKeys_eventIndex c, fun hname => absurd hname hne,
    fun hname => absurd rfl hname⟩

/-- Constants and enums share one table, and every enum has a table of its own in it. -/
theorem hasOwnKeys_constants (c : Contract) : HasOwnKeys c (.property "consts" (constants c)) := by
  have hne : "consts" ≠ "eventIndex" := by decide
  exact ⟨fun hname => absurd hname hne, fun _ => literalKeys_constants c,
    fun _ hname => absurd rfl hname⟩

theorem nodup_callable {c : Contract} (h : (c.functions.map Function.name).Nodup) :
    (c.callable.map Function.name).Nodup :=
  (List.filter_sublist.map Function.name).nodup h

/-- Every literal of the factory under its own condition. -/
theorem hasOwnKeys_factory {c : Contract} (hfunctions : (c.functions.map Function.name).Nodup) :
    ∀ m ∈ (factory c).members, HasOwnKeys c m := by
  intro m hm
  unfold factory at hm
  simp only [List.mem_append] at hm
  rcases hm with (((hm | hm) | hm) | hm) | hm
  · rw [mem_methodIf hm]
    exact hasOwnKeys_of_nil "getInitialFieldsWithDefaultValues" rfl rfl rfl
  · rw [mem_propertyIf hm]
    exact hasOwnKeys_eventIndex c
  · rw [mem_propertyIf hm]
    exact hasOwnKeys_constants c
  · rw [List.mem_singleton.1 hm]
    exact hasOwnKeys_of_nil "at" rfl rfl rfl
  · rw [mem_propertyIf hm]
    exact hasOwnKeys_of_other "tests" rfl rfl
      (hasDistinctKeys_stubs hfunctions (hasDistinctKeys_testStub c))

/-- The name of a subscription ends as that of neither table does. -/
theorem isOtherName_subscribeName (event : String) : isOtherName (subscribeName event) = true := by
  have hend : "subscribe" ++ event ++ "Event" ∉ ["eventIndex", "consts"] :=
    not_mem_of_ending (by decide) _
  rw [String.append_assoc, List.mem_cons, List.mem_singleton, not_or] at hend
  exact decide_eq_true hend

/-- Every literal of the instance class under its own condition. -/
theorem hasOwnKeys_instanceClass {c : Contract}
    (hfunctions : (c.functions.map Function.name).Nodup) :
    ∀ m ∈ (instanceClass c).members, HasOwnKeys c m := by
  intro m hm
  unfold instanceClass at hm
  simp only [List.mem_append] at hm
  rcases hm with ((((hm | hm) | hm) | hm) | hm) | hm
  · simp only [List.mem_cons, List.not_mem_nil, or_false] at hm
    rcases hm with rfl | rfl | rfl
    · exact hasOwnKeys_of_nil "constructor" rfl rfl rfl
    · exact hasOwnKeys_of_nil "in" rfl rfl rfl
    · exact hasOwnKeys_of_nil "fetchState" rfl rfl rfl
  · rw [mem_methodIf hm]
    exact hasOwnKeys_of_nil "getContractEventsCurrentCount" rfl rfl rfl
  · obtain ⟨e, -, rfl⟩ := List.mem_map.1 hm
    exact hasOwnKeys_of_nil _ rfl (isOtherName_subscribeName e.name) rfl
  · rw [mem_methodIf hm]
    exact hasOwnKeys_of_nil "subscribeAllEvents" rfl rfl rfl
  · rw [mem_propertyIf hm]
    exact hasOwnKeys_of_other "methods" rfl rfl
      (hasDistinctKeys_stubs (nodup_callable hfunctions) (hasDistinctKeys_callStub c))
  · rw [mem_methodIf hm]
    exact hasOwnKeys_of_nil "multicall" rfl rfl rfl

/-- The unit has its keys in the two classes only. -/
theorem literalKeys_contractUnit (c : Contract) (info : CodeInfo) (path : String) :
    (contractUnit c info path).literalKeys =
      (factory c).members.flatMap memberKeys ++ (instanceClass c).members.flatMap memberKeys := by
  have hparts : (contractUnit c info path).items.flatMap Item.parts =
      (factory c).members.flatMap ClassMember.parts ++ ((factoryValue c info).parts ++
        ((instanceClass c).members.flatMap ClassMember.parts ++ [])) := rfl
  have hvalue : (factoryValue c info).parts.filterMap Expr.keys? = [] := rfl
  unfold SourceUnit.literalKeys
  rw [hparts, List.append_nil, List.filterMap_append, List.filterMap_append, hvalue,
    List.filterMap_flatMap, List.filterMap_flatMap]
  rfl

/-! ## The unit -/

theorem namespaceDecl_mem_iff {c : Contract} {info : CodeInfo} {path name : String}
    {items : List Item} :
    .namespaceDecl name items ∈ (contractUnit c info path).items ↔
      name = typesName c.name ∧ items = contractTypes c := by
  unfold contractUnit
  simp

/-- The unit has two classes. -/
theorem classDecl_mem_iff {c : Contract} {info : CodeInfo} {path : String} {d : ClassDecl} :
    .classDecl d ∈ (contractUnit c info path).items ↔ d = factory c ∨ d = instanceClass c := by
  unfold contractUnit
  simp

/-- **The names of a contract's unit**, scope by scope. -/
structure HasDistinctNames (c : Contract) (u : SourceUnit) : Prop where
  /-- What is bound at the top is bound once, unless the contract's name is reserved. -/
  top : u.boundNames.Nodup ↔ c.name ∉ reservedNames
  /-- A namespace declares no type twice exactly if no two events have one name. -/
  types : ∀ n items, .namespaceDecl n items ∈ u.items →
    ((typeNames items).Nodup ↔ (c.events.map Event.name).Nodup)
  /-- The factory has no two members of one name. -/
  factory : ∀ d, .classDecl d ∈ u.items → d.name = "Factory" →
    (d.members.map ClassMember.name).Nodup
  /-- Another class has none exactly if no two events have one name. -/
  instances : ∀ d, .classDecl d ∈ u.items → d.name ≠ "Factory" →
    ((d.members.map ClassMember.name).Nodup ↔ (c.events.map Event.name).Nodup)
  /-- The object literals of the unit stand in its classes. -/
  literals : ∀ keys ∈ u.literalKeys, ∃ d m, .classDecl d ∈ u.items ∧ m ∈ d.members ∧
    keys ∈ memberKeys m
  /-- None has a key twice, but for those whose keys are the names of events, of constants and enums
  or of an enum's members. -/
  keys : ∀ d, .classDecl d ∈ u.items → ∀ m ∈ d.members, HasOwnKeys c m
  /-- No interface has a member twice. -/
  interfaces : ∀ n items i, .namespaceDecl n items ∈ u.items → .interfaceDecl i ∈ items →
    (i.members.map Member.name).Nodup
  /-- The type of an event captures an import exactly if the event is named `Contract`. -/
  captures : ∀ n items, .namespaceDecl n items ∈ u.items →
    (u.CapturesImport items ↔ "Contract" ∈ c.events.map Event.name)

theorem name_instanceClass_ne (c : Contract) : (instanceClass c).name ≠ "Factory" := by
  have hend : c.name ++ "Instance" ∉ ["Factory"] := not_mem_of_ending (by decide) c.name
  exact fun hname => hend (List.mem_singleton.2 hname)

/-- A function's name stands once in each table; every other name is looked at in its own scope. -/
theorem hasDistinctNames_contractUnit {c : Contract} (info : CodeInfo) (path : String)
    (hfunctions : (c.functions.map Function.name).Nodup) :
    HasDistinctNames c (contractUnit c info path) where
  top := boundNames_nodup_iff c info path
  types n items h := by
    rw [(namespaceDecl_mem_iff.1 h).2]
    exact nodup_typeNames_iff c
  factory d h hname := by
    rcases classDecl_mem_iff.1 h with rfl | rfl
    · exact nodup_factory c
    · exact absurd hname (name_instanceClass_ne c)
  instances d h hname := by
    rcases classDecl_mem_iff.1 h with rfl | rfl
    · exact absurd rfl hname
    · exact nodup_instanceClass_iff c
  -- Keys stand in the members of the two classes only.
  literals keys h := by
    rw [literalKeys_contractUnit, List.mem_append, List.mem_flatMap, List.mem_flatMap] at h
    rcases h with ⟨m, hm, hkeys⟩ | ⟨m, hm, hkeys⟩
    · exact ⟨_, m, classDecl_mem_iff.2 (Or.inl rfl), hm, hkeys⟩
    · exact ⟨_, m, classDecl_mem_iff.2 (Or.inr rfl), hm, hkeys⟩
  keys d h := by
    rcases classDecl_mem_iff.1 h with rfl | rfl
    · exact hasOwnKeys_factory hfunctions
    · exact hasOwnKeys_instanceClass hfunctions
  interfaces n items i h hi := by
    rw [(namespaceDecl_mem_iff.1 h).2] at hi
    rw [members_of_interface hi, List.map_map]
    exact nodup_callable hfunctions
  captures n items h := by
    rw [(namespaceDecl_mem_iff.1 h).2]
    exact capturesImport_iff c info path

/-- Names that are distinct in the tables of events, of constants and enums and of each enum leave no
object literal with a key twice. -/
theorem HasDistinctNames.nodup_literals {c : Contract} {u : SourceUnit} (h : HasDistinctNames c u)
    (hevents : (c.events.map Event.name).Nodup)
    (hconstants : (c.constants.map NamedConstant.name ++ c.enums.map Enum.name).Nodup)
    (hmembers : ∀ e ∈ c.enums, (e.members.map NamedConstant.name).Nodup) :
    ∀ keys ∈ u.literalKeys, keys.Nodup := by
  intro keys hkeys
  obtain ⟨d, m, hd, hm, hkeys⟩ := h.literals keys hkeys
  obtain ⟨hindex, htable, hrest⟩ := h.keys d hd m hm
  by_cases hname : m.name = "eventIndex"
  · rw [hindex hname, List.mem_singleton] at hkeys
    exact hkeys ▸ hevents
  by_cases hname' : m.name = "consts"
  · rw [htable hname'] at hkeys
    rcases List.mem_cons.1 hkeys with rfl | hkeys
    · exact hconstants
    · obtain ⟨e, he, rfl⟩ := List.mem_map.1 hkeys
      exact hmembers e he
  · exact hrest hname hname' keys hkeys

/-- **The names in a contract's unit are distinct in each scope**, or exactly if those of its events,
its constants and enums, or the members of one enum are. -/
theorem contract_names {p : Project} {a : Artifact.Contract} {c : Contract} (path : String)
    (hlower : a.lower = .ok c) (hinfo : (p.info? c.name).isSome = true) :
    ∃ u, contractUnit? p c path = .ok u ∧ HasDistinctNames c u := by
  obtain ⟨info, hinfo⟩ := Option.isSome_iff_exists.1 hinfo
  have hunit : contractUnit? p c path = .ok (contractUnit c info path) := by
    unfold contractUnit?
    rw [hinfo]
  have hfunctions := Artifact.Contract.nodup_functions_of_lower hlower
  exact ⟨_, hunit, hasDistinctNames_contractUnit info path hfunctions⟩

/-! ### Names that are taken -/

/-- A contract with a field, a function, a constant, events and an enum. -/
def coinArtifact (name : String) (events : List String) (enum : String) (members : List String) :
    Artifact.Contract where
  version := ""
  name
  bytecode := ""
  codeHash := ""
  fields := ⟨["supply"], ["U256"], [true]⟩
  events := events.map fun event => ⟨event, ["to"], ["Address"]⟩
  functions :=
    [{ name := "supply", usesPreapprovedAssets := false, usesContractAssets := false,
       isPublic := true, paramNames := [], paramTypes := [], paramIsMutable := [],
       returnTypes := ["U256"] }]
  constants := [⟨"Limit", .u256 21⟩]
  enums := [⟨enum, members.map fun member => ⟨member, .u256 0⟩⟩]

def coinInterface (name : String) (events : List String) (enum : String) (members : List String) :
    Contract where
  name
  fields := [⟨"supply", .scalar .u256, true⟩]
  events := events.map fun event => ⟨event, [⟨"to", .scalar .address⟩]⟩
  functions :=
    [{ name := "supply", isPublic := true, usesPreapprovedAssets := false,
       usesContractAssets := false, params := [], returns := [.scalar .u256] }]
  constants := [⟨"Limit", .u256 21⟩]
  enums := [⟨enum, members.map fun member => ⟨member, .u256 0⟩⟩]

/-- A project file that has the code of one contract. -/
def coinProject (name : String) : Project := ⟨none, [(name, ⟨"", "", "", "", []⟩)]⟩

/-- A contract whose names are its own. -/
def coin : Contract := coinInterface "Coin" ["Sent"] "Phase" ["Open", "Closed"]

theorem contract_names_coin :
    ∃ u, contractUnit? (coinProject "Coin") coin "Coin.ral.json" = .ok u ∧
      HasDistinctNames coin u ∧ u.boundNames.Nodup ∧ ∀ keys ∈ u.literalKeys, keys.Nodup := by
  have hlower : (coinArtifact "Coin" ["Sent"] "Phase" ["Open", "Closed"]).lower = .ok coin := rfl
  obtain ⟨u, hunit, hnames⟩ :=
    contract_names (p := coinProject "Coin") "Coin.ral.json" hlower rfl
  exact ⟨u, hunit, hnames, hnames.top.2 (by decide),
    hnames.nodup_literals (by decide) (by decide) (by decide)⟩

/-- A contract with the name of its own factory and two events named `Contract`, an enum named as
its constant, and two members of one name in that enum. -/
def clashing : Contract := coinInterface "Factory" ["Contract", "Contract"] "Limit" ["Open", "Open"]

/-- A contract whose names clash is bound all the same: its factory is declared twice, the type of
all events is captured, and events, constants and members of the enum stand twice in each table. -/
theorem taken_names_clash :
    (coinArtifact "Factory" ["Contract", "Contract"] "Limit" ["Open", "Open"]).lower =
        .ok clashing ∧
      ∃ u, contractUnit? (coinProject "Factory") clashing "Factory.ral.json" = .ok u ∧
        ¬ u.boundNames.Nodup ∧
        u.CapturesImport (contractTypes clashing) ∧
        .namespaceDecl "FactoryTypes" (contractTypes clashing) ∈ u.items ∧
        ¬ (typeNames (contractTypes clashing)).Nodup ∧
        .classDecl (instanceClass clashing) ∈ u.items ∧
        ¬ ((instanceClass clashing).members.map ClassMember.name).Nodup ∧
        ["Contract", "Contract"] ∈ u.literalKeys ∧ ["Limit", "Limit"] ∈ u.literalKeys ∧
        ["Open", "Open"] ∈ u.literalKeys := by
  refine ⟨rfl, _, rfl, fun hnodup => ?_, ?_, ?_, by decide, ?_, by decide, ?_, ?_, ?_⟩
  · exact (boundNames_nodup_iff clashing _ _).1 hnodup (by decide)
  · exact (capturesImport_iff clashing _ _).2 (by decide)
  · exact namespaceDecl_mem_iff.2 ⟨rfl, rfl⟩
  · exact classDecl_mem_iff.2 (Or.inr rfl)
  · decide +kernel
  · decide +kernel
  · decide +kernel

end TypedBindings.Binding
