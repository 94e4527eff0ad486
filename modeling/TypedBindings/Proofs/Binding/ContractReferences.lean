import TypedBindings.Proofs.Binding.ContractNames
import TypedBindings.Proofs.TypeScript.Resolution

/-!
# What a contract's unit refers to

The parts of a contract's unit are left out under one condition each, and other parts refer to them
under conditions of their own.

* `IsInside`: what can be referred to anywhere in the unit.
* `unresolved_contractTypes`, `unresolved_factory`, `unresolved_instanceClass`: the parts of the
  unit refer to what is bound.
* `contractUnit_resolves`: every name that the unit uses is bound where it is used.
-/

namespace TypedBindings.Binding

open Abi TypeScript

/-! ## The namespace's types -/

/-- The names of a contract that become parts of a path. -/
structure HasIdentifiers (c : Contract) : Prop where
  name : IsIdentifier c.name
  events : ∀ e ∈ c.events, IsIdentifier e.name

/-- The types that a contract's namespace exports. -/
def exportedTypes (c : Contract) : List String := (contractTypes c).filterMap Item.exportedType?

section Exported

variable {c : Contract} {name : String}

/-- The namespace exports the types of a contract's fields and state. -/
theorem mem_exportedTypes_state (h : name ∈ (stateTypes c).filterMap Item.exportedType?) :
    name ∈ exportedTypes c := by
  unfold exportedTypes contractTypes
  rw [List.filterMap_append, List.filterMap_append]
  exact List.mem_append_left _ (List.mem_append_left _ h)

/-- It exports the type of every event, so a subscription may name one. -/
theorem mem_exportedTypes_event {e : Event} (he : e ∈ c.events) :
    eventTypeName e.name ∈ exportedTypes c := by
  unfold exportedTypes contractTypes
  rw [List.filterMap_append, List.filterMap_append]
  refine List.mem_append_left _ (List.mem_append_right _ (List.mem_filterMap.2 ?_))
  exact ⟨.aliasDecl (eventType e), List.mem_map_of_mem he, rfl⟩

/-- The types of calls are exported if the contract has a function to call. -/
theorem mem_exportedTypes_call (h : c.callable.isEmpty = false) :
    ∀ name ∈ callTypeNames, name ∈ exportedTypes c := by
  have hexported : (callTypes c.callable).filterMap Item.exportedType? = callTypeNames := rfl
  unfold exportedTypes contractTypes
  rw [List.filterMap_append, h, if_neg (by decide), hexported]
  exact fun name hname => List.mem_append_right _ hname

/-- The type of the fields is exported under the condition under which it is declared. -/
theorem exportedTypes_fields (h : c.hasUserFields = true) : "Fields" ∈ exportedTypes c := by
  refine mem_exportedTypes_state ?_
  unfold stateTypes
  rw [if_pos h]
  exact List.mem_cons_self

theorem exportedTypes_state (c : Contract) : "State" ∈ exportedTypes c := by
  refine mem_exportedTypes_state ?_
  unfold stateTypes
  split
  · exact List.mem_cons_of_mem _ List.mem_cons_self
  · exact List.mem_cons_self

end Exported

/-! ## Places in the unit -/

/-- The types that the unit of every contract can use. -/
def fixedTypes : List String := languageNames.types ++ fixedImports

/-- The values that the unit of every contract can use. -/
def fixedValues : List String := languageNames.values ++ reservedNames

/-- The values that a contract's unit has for the contract. -/
def ownValues (contract : String) : List String :=
  [contract, contractJsonName contract, instanceName contract]

/-- What can be referred to at any place in a contract's unit. -/
structure IsInside (c : Contract) (s : Visible) : Prop where
  types : ∀ name ∈ instanceName c.name :: fixedTypes, name ∈ s.types
  values : ∀ name ∈ ownValues c.name ++ fixedValues, name ∈ s.values
  namespaces : (typesName c.name, exportedTypes c) ∈ s.namespaces

/-- The top of the unit, where imports and declarations are bound before any part is read. -/
theorem isInside_unit (c : Contract) (info : CodeInfo) (path : String) :
    IsInside c (languageNames.enter (contractUnit c info path).items) where
  types := by
    have htypes : (languageNames.enter (contractUnit c info path).items).types =
        contractImports ++ (["DeployContractExecutionResult", contractJsonName c.name,
          "getContractByCodeHash", "loadContractInstanceFromDeployments", "Factory",
          instanceName c.name] ++ languageNames.types) := rfl
    intro name hname
    rw [htypes]
    unfold fixedTypes fixedImports at hname
    simp only [List.mem_append, List.mem_cons, List.not_mem_nil, or_false] at hname ⊢
    tauto
  values := by
    have hvalues : (languageNames.enter (contractUnit c info path).items).values =
        contractImports ++ (["DeployContractExecutionResult", contractJsonName c.name,
          "getContractByCodeHash", "loadContractInstanceFromDeployments", "Factory", c.name,
          instanceName c.name] ++ languageNames.values) := rfl
    intro name hname
    rw [hvalues]
    unfold ownValues fixedValues reservedNames fixedImports at hname
    simp only [List.mem_append, List.mem_cons, List.not_mem_nil, or_false] at hname ⊢
    tauto
  namespaces := List.mem_cons_self

section Places

variable {c : Contract} {s : Visible} {name path : String}

namespace IsInside

/-- Behind type parameters everything stays bound. -/
theorem withTypes (h : IsInside c s) (names : List String) : IsInside c (s.withTypes names) where
  types name hname := List.mem_append_right _ (h.types name hname)
  values := h.values
  namespaces := h.namespaces

/-- In the body of a function everything stays bound, its parameters added. -/
theorem withParams (h : IsInside c s) (params : List TypeScript.Param) :
    IsInside c (s.withParams params) where
  types := h.types
  values name hname := List.mem_append_right _ (h.values name hname)
  namespaces := h.namespaces

/-- In the namespace everything stays bound, the namespace's own types added. -/
theorem enter (h : IsInside c s) (items : List Item) : IsInside c (s.enter items) where
  types name hname := List.mem_append_right _ (h.types name hname)
  values name hname := List.mem_append_right _ (h.values name hname)
  namespaces := List.mem_append_right _ h.namespaces

/-- A type that every unit can use is written without a dot, so it is looked up as a type. -/
theorem binds_fixed (h : IsInside c s) (hname : name ∈ fixedTypes) :
    s.binds (.type name) = true := by
  have hdot : ∀ name ∈ fixedTypes, '.' ∉ name.toList := by decide
  exact binds_type (hdot name hname) (h.types name (List.mem_cons_of_mem _ hname))

theorem binds_fixedValue (h : IsInside c s) (hname : name ∈ fixedValues) :
    s.binds (.value name) = true := by
  have hdot : ∀ name ∈ fixedValues, '.' ∉ name.toList := by decide
  exact binds_value (by rw [namesOfPath_of_no_dot (hdot name hname)]; rfl)
    (h.values name (List.mem_append_right _ hname))

/-- A path starts with a value that every unit can use. -/
theorem binds_path (h : IsInside c s) (name : String)
    (hhead : (namesOfPath path).head? = some name) (hname : name ∈ fixedValues) :
    s.binds (.value path) = true :=
  binds_value hhead (h.values name (List.mem_append_right _ hname))

end IsInside

/-- The names that a unit makes from a contract's name have no dot in them either. -/
theorem no_dot_ending (hname : IsIdentifier name) {ending : String}
    (hending : '.' ∉ ending.toList) : '.' ∉ (name ++ ending).toList := by
  rw [String.toList_append, List.mem_append, not_or]
  exact ⟨hname.no_dot, hending⟩

namespace IsInside

theorem binds_instance (h : IsInside c s) (hc : HasIdentifiers c) :
    s.binds (.type (instanceName c.name)) = true :=
  binds_type (no_dot_ending hc.name (by decide)) (h.types _ List.mem_cons_self)

/-- A type of the namespace is reached from outside by the namespace's name and its own. -/
theorem binds_qualified (h : IsInside c s) (hc : HasIdentifiers c) (hname : '.' ∉ name.toList)
    (hexported : name ∈ exportedTypes c) : s.binds (.type (qualifiedName c name)) = true :=
  binds_exported (no_dot_ending hc.name (by decide)) hname h.namespaces hexported

/-- The values of the contract itself: its name, its compiled artifact and its instances. -/
theorem binds_own (h : IsInside c s) (hdot : '.' ∉ name.toList) (hname : name ∈ ownValues c.name) :
    s.binds (.value name) = true :=
  binds_value (by rw [namesOfPath_of_no_dot hdot]; rfl)
    (h.values name (List.mem_append_left _ hname))

theorem binds_instanceValue (h : IsInside c s) (hc : HasIdentifiers c) :
    s.binds (.value (instanceName c.name)) = true :=
  h.binds_own (no_dot_ending hc.name (by decide))
    (List.mem_cons_of_mem _ (List.mem_cons_of_mem _ List.mem_cons_self))

/-- The contract of a factory. -/
theorem binds_contract (h : IsInside c s) (hc : HasIdentifiers c) :
    s.binds (.value (c.name ++ ".contract")) = true := by
  have hpath : c.name ++ ".contract" = c.name ++ "." ++ "contract" := by
    rw [String.append_assoc]; rfl
  rw [hpath]
  exact binds_value (by rw [namesOfPath_member hc.name.no_dot]; rfl)
    (h.values c.name List.mem_cons_self)

end IsInside

/-! ## Types -/

theorem unresolved_fixed (h : IsInside c s) (hname : name ∈ fixedTypes) :
    (Ty.named name).unresolved s = [] :=
  missing_eq_nil_iff.2 (h.binds_fixed hname)

/-- A type with one argument, such as the promise of a result. -/
theorem unresolved_fixedOf (h : IsInside c s) (hname : name ∈ fixedTypes) {type : Ty}
    (htype : type.unresolved s = []) : (Ty.generic name [type]).unresolved s = [] :=
  unresolved_generic_eq_nil_iff.2 ⟨h.binds_fixed hname, List.forall_mem_singleton.2 htype⟩

/-- The type of a value is written with fixed names only, arrays as tuples of their element. -/
theorem unresolved_typeOf (h : IsInside c s) (type : ValueType) :
    (typeOf type).unresolved s = [] := by
  induction type with
  | scalar kind =>
    have hname : scalarType kind ∈ fixedTypes := by cases kind <;> decide
    exact unresolved_fixed h hname
  | array element length ih =>
    refine unresolvedOfTypes_eq_nil_iff.2 fun type htype => ?_
    rw [List.eq_of_mem_replicate htype]
    exact ih

theorem unresolved_recordType (h : IsInside c s) (entries : List (String × ValueType)) :
    (recordType entries).unresolved s = [] := by
  refine unresolvedOfMembers_eq_nil_iff.2 fun m hm => ?_
  obtain ⟨e, -, rfl⟩ := List.mem_map.1 hm
  exact unresolved_typeOf h e.2

/-- What a function returns: nothing, one type, or a tuple of types. -/
theorem unresolved_returnsType (h : IsInside c s) (types : List ValueType) :
    (returnsType types).unresolved s = [] := by
  match types with
  | [] => exact unresolved_fixed h (by decide)
  | [type] => exact unresolved_typeOf h type
  | first :: second :: rest =>
    refine unresolvedOfTypes_eq_nil_iff.2 fun type htype => ?_
    obtain ⟨t, -, rfl⟩ := List.mem_map.1 htype
    exact unresolved_typeOf h t

theorem unresolved_without (h : IsInside c s) {type : Ty} (htype : type.unresolved s = [])
    (keys : List String) : (type.without keys).unresolved s = [] :=
  unresolved_without_eq_nil_iff.2 ⟨h.binds_fixed (by decide), htype⟩

/-! ### In the namespace -/

/-- The state refers to `Fields` only where `Fields` is declared. -/
theorem unresolved_stateTypes (h : IsInside c s)
    (hfields : c.hasUserFields = true → "Fields" ∈ s.types) :
    ∀ item ∈ stateTypes c, item.unresolved s = [] := by
  unfold stateTypes
  split
  · next hwanted =>
    have hbound : s.binds (.type "Fields") = true := binds_type (by decide) (hfields hwanted)
    rw [List.forall_mem_cons, List.forall_mem_singleton]
    exact ⟨unresolved_recordType h _,
      unresolved_fixedOf h (by decide) (missing_eq_nil_iff.2 hbound)⟩
  · rw [List.forall_mem_singleton]
    exact unresolved_without h
      (unresolved_fixedOf h (by decide) (unresolved_fixed h (by decide))) _

theorem unresolved_eventType (h : IsInside c s) (e : Event) :
    (Item.aliasDecl (eventType e)).unresolved s = [] := by
  have htype : (eventType e).type.unresolved s = [] := by
    unfold eventType
    dsimp only
    split
    · exact unresolved_without h (unresolved_fixed h (by decide)) _
    · exact unresolved_fixedOf h (by decide) (unresolved_recordType h _)
  exact htype

/-- An entry of the table of calls, with its parameters if the function has some. -/
theorem unresolved_callEntry (h : IsInside c s) (f : Function) :
    (callEntry f).type.unresolved s = [] := by
  refine unresolvedOfMembers_eq_nil_iff.2 ?_
  rw [List.forall_mem_cons, List.forall_mem_singleton]
  constructor
  · split
    · exact unresolved_fixedOf h (by decide) (unresolved_recordType h _)
    · exact unresolved_without h (unresolved_fixedOf h (by decide) rfl) _
  · exact unresolved_fixedOf h (by decide) (unresolved_returnsType h _)

/-- The types that look into the table of calls are given by their texts. -/
theorem unresolved_callTypes (h : IsInside c s)
    (htypes : ∀ name ∈ callTypeNames, name ∈ s.types)
    (callable : List Function) : ∀ item ∈ callTypes callable, item.unresolved s = [] := by
  -- The types of the namespace stay bound behind type parameters and the keys of mapped types.
  have hbound : ∀ name ∈ callTypeNames, ∀ params keys,
      ((s.withTypes params).withTypes keys).binds (.type name) = true := by
    have hdot : ∀ name ∈ callTypeNames, '.' ∉ name.toList := by decide
    intro name hname params keys
    exact binds_type (hdot name hname)
      (List.mem_append_right _ (List.mem_append_right _ (htypes name hname)))
  have htable := hbound "CallMethodTable" (by decide)
  have hparams := hbound "MultiCallParams" (by decide)
  have hT : ((s.withTypes ["T"]).withTypes []).binds (.type "T") = true :=
    binds_type (by decide) List.mem_cons_self
  -- One entry of the table, picked by a parameter.
  have hkeyed : pathsIn "T extends keyof CallMethodTable" =
      ["T", "extends", "keyof", "CallMethodTable"] := by decide +kernel
  have hpicked : ∀ declared text, pathsIn text = ["CallMethodTable", "T"] →
      (Item.aliasDecl
        { name := declared
          generics := ["T extends keyof CallMethodTable"]
          type := .raw text }).unresolved s = [] := by
    intro declared text htext
    refine (unresolved_genericAlias_eq_nil_iff hkeyed).2
      ⟨List.forall_mem_singleton.2 (htable ["T"] []), (unresolved_raw_eq_nil_iff htext).2 ?_⟩
    exact List.forall_mem_cons.2 ⟨htable ["T"] [], List.forall_mem_singleton.2 hT⟩
  -- All entries of the table, by its keys.
  have hpartial : pathsIn ("\x7b [Name in keyof CallMethodTable]: " ++
      "CallMethodTable[Name][\"params\"] \x7d") =
        ["Name", "in", "keyof", "CallMethodTable", "CallMethodTable", "Name"] := by decide +kernel
  have hmapped : pathsIn
      ("\x7b [MaybeName in keyof T]: MaybeName extends keyof CallMethodTable ? " ++
        "CallMethodTable[MaybeName][\"result\"] : undefined \x7d") =
        ["MaybeName", "in", "keyof", "T", "MaybeName", "extends", "keyof", "CallMethodTable",
          "CallMethodTable", "MaybeName", "undefined"] := by decide +kernel
  have hgiven : pathsIn "T extends MultiCallParams" = ["T", "extends", "MultiCallParams"] := by
    decide +kernel
  unfold callTypes
  rw [List.forall_mem_cons, List.forall_mem_cons, List.forall_mem_cons, List.forall_mem_cons,
    List.forall_mem_singleton]
  refine ⟨?table, hpicked _ _ (by decide +kernel), hpicked _ _ (by decide +kernel), ?params,
    (unresolved_genericAlias_eq_nil_iff hgiven).2 ⟨?given, ?results⟩⟩
  case table =>
    refine unresolvedOfMembers_eq_nil_iff.2 fun m hm => ?_
    obtain ⟨f, -, rfl⟩ := List.mem_map.1 hm
    exact unresolved_callEntry h f
  case params =>
    refine unresolved_fixedOf h (by decide) ((unresolved_raw_eq_nil_iff hpartial).2 ?_)
    have hName : (s.withTypes ["Name"]).binds (.type "Name") = true :=
      binds_type (by decide) List.mem_cons_self
    have hused : ∀ word ∈ withoutKeywords ["Name", "in", "keyof", "CallMethodTable",
        "CallMethodTable", "Name"], word = "Name" ∨ word = "CallMethodTable" := by decide
    intro word hword
    obtain rfl | rfl := hused word hword
    · exact hName
    · exact htable [] ["Name"]
  case given => exact List.forall_mem_singleton.2 (hparams ["T"] [])
  case results =>
    have hused : ∀ word ∈ withoutKeywords ["MaybeName", "in", "keyof", "T", "MaybeName", "extends",
        "keyof", "CallMethodTable", "CallMethodTable", "MaybeName", "undefined"],
        word = "MaybeName" ∨ word = "T" ∨ word = "CallMethodTable" ∨ word = "undefined" := by decide
    have hinner := (h.withTypes ["T"]).withTypes ["MaybeName"]
    refine (unresolved_raw_eq_nil_iff hmapped).2 fun word hword => ?_
    obtain rfl | rfl | rfl | rfl := hused word hword
    · exact binds_type (by decide) List.mem_cons_self
    · exact binds_type (by decide) (List.mem_cons_of_mem _ List.mem_cons_self)
    · exact htable ["T"] ["MaybeName"]
    · exact hinner.binds_fixed (by decide)

/-- **What the namespace uses is bound in it or at the top.** -/
theorem unresolved_contractTypes (h : IsInside c s) :
    ∀ item ∈ contractTypes c, item.unresolved (s.enter (contractTypes c)) = [] := by
  have hinner := h.enter (contractTypes c)
  have hdeclared : ∀ {name}, name ∈ exportedTypes c → name ∈ (s.enter (contractTypes c)).types := by
    intro name hname
    obtain ⟨item, hitem, hexported⟩ := List.mem_filterMap.1 hname
    exact List.mem_append_left _
      (List.mem_flatMap.2 ⟨item, hitem, Item.mem_boundTypes_of_exportedType? hexported⟩)
  intro item hitem
  rcases List.mem_append.1 hitem with hitem | hcall
  · rcases List.mem_append.1 hitem with hstate | hevent
    · exact unresolved_stateTypes hinner
        (fun hwanted => hdeclared (exportedTypes_fields hwanted)) item hstate
    · obtain ⟨e, -, rfl⟩ := List.mem_map.1 hevent
      exact unresolved_eventType hinner e
  · split at hcall
    · exact absurd hcall List.not_mem_nil
    · next hcallable =>
      have hexported := mem_exportedTypes_call (Bool.eq_false_iff.2 hcallable)
      exact unresolved_callTypes hinner (fun name hname => hdeclared (hexported name hname)) _
        item hcall

/-- A method that is in the class was wanted. -/
theorem wanted_of_mem_methodIf {wanted : Bool} {method : Method} {m : ClassMember}
    (h : m ∈ methodIf wanted method) : wanted = true := by
  cases wanted
  · exact absurd h List.not_mem_nil
  · rfl

/-! ## The factory -/

theorem unresolved_fields (h : IsInside c s) (hc : HasIdentifiers c)
    (hwanted : c.hasUserFields = true) : (qualified c "Fields").unresolved s = [] :=
  missing_eq_nil_iff.2 (h.binds_qualified hc (by decide) (exportedTypes_fields hwanted))

mutual

/-- A constant refers to nothing. -/
theorem unresolved_literal (s : Visible) (value : Constant) : (literal value).unresolved s = [] :=
  match value with
  | .bool _ => rfl
  | .u256 _ => rfl
  | .i256 _ => rfl
  | .address _ => rfl
  | .byteVec _ => rfl
  | .array items => unresolved_literals s items

/-- Constants are written as literals, which refer to nothing but the language. -/
theorem unresolved_literals (s : Visible) (items : List Constant) :
    unresolvedOfExprs s (literals items) = [] :=
  match items with
  | [] => rfl
  | value :: rest =>
    List.append_eq_nil_iff.2 ⟨unresolved_literal s value, unresolved_literals s rest⟩

end

theorem unresolved_constants (s : Visible) (c : Contract) : (constants c).unresolved s = [] := by
  refine unresolved_record_eq_nil_iff.2 (List.forall_mem_append.2 ⟨fun f hf => ?_, fun f hf => ?_⟩)
  · obtain ⟨d, -, rfl⟩ := List.mem_map.1 hf
    exact unresolved_literal s d.value
  · obtain ⟨e, -, rfl⟩ := List.mem_map.1 hf
    refine unresolved_record_eq_nil_iff.2 fun f hf => ?_
    obtain ⟨m, -, rfl⟩ := List.mem_map.1 hf
    exact unresolved_literal s m.value

theorem unresolved_eventIndex (s : Visible) (c : Contract) : (eventIndex c).unresolved s = [] := by
  refine unresolved_record_eq_nil_iff.2 fun f hf => ?_
  obtain ⟨e, -, rfl⟩ := List.mem_map.1 hf
  rfl

/-- The argument of a stub, with the default that an optional one has. -/
theorem unresolved_stubArgument (h : IsInside c s) (isOptional : Bool)
    (hparams : s.binds (.value "params") = true) : (stubArgument isOptional).unresolved s = [] := by
  have hident : s.missing (.value "params") = [] := missing_eq_nil_iff.2 hparams
  have hundefined : s.missing (.value "undefined") = [] :=
    missing_eq_nil_iff.2 (h.binds_fixedValue (by decide))
  unfold stubArgument
  split
  · unfold Expr.isUndefined
    simp only [Expr.unresolved, unresolvedOfEntries, hident, hundefined, List.append_nil]
  · exact hident

/-- A stub calls one function of the runtime with its parameter and further arguments. -/
theorem unresolved_stub (h : IsInside c s) {param : TypeScript.Param} {type result : Ty}
    (hparam : param.type = some type) (htype : type.unresolved s = [])
    (hresult : result.unresolved s = []) {callee : String}
    (hcallee : callee ∈ fixedValues) {args : List Expr}
    (hargs : ∀ e ∈ args, e.unresolved (s.withParams [param]) = []) :
    (asyncArrow param result.promise [.ret (.callNamed callee args)]).unresolved s = [] := by
  have hinner := h.withParams [param]
  have hcall : (Expr.callNamed callee args).unresolved (s.withParams [param]) = [] :=
    unresolved_callNamed_eq_nil_iff.2 ⟨hinner.binds_fixedValue hcallee, hargs⟩
  have hsignature : unresolvedSignature s [param] (some result.promise) = [] := by
    refine unresolvedSignature_eq_nil_iff.2 ⟨?_, ?_⟩
    · rw [List.filterMap_cons, hparam]
      exact List.forall_mem_singleton.2 htype
    · exact unresolved_fixedOf h (by decide) hresult
  unfold asyncArrow
  rw [Expr.unresolved, hsignature, unresolvedOfBlock, Stmt.unresolved, hcall]
  rfl

/-- The parameters of a test name `Fields` only where the namespace exports it. -/
theorem unresolved_testParams (h : IsInside c s) (hc : HasIdentifiers c) (f : Function) :
    (testParams c f).unresolved s = [] := by
  have hnever : (Ty.named "never").unresolved s = [] := unresolved_fixed h (by decide)
  have hfields :
      (if c.hasUserFields then qualified c "Fields" else .named "never").unresolved s = [] := by
    split
    · next hwanted => exact unresolved_fields h hc hwanted
    · exact hnever
  have hargs : (if f.hasParams then paramsType f.params else .named "never").unresolved s = [] := by
    split
    · exact unresolved_recordType h _
    · exact hnever
  have hname : s.binds (.type "TestContractParams") = true := h.binds_fixed (by decide)
  have hparams := unresolved_generic_eq_nil_iff.2
    ⟨hname, List.forall_mem_cons.2 ⟨hfields, List.forall_mem_singleton.2 hargs⟩⟩
  unfold testParams
  dsimp only
  split
  · exact hparams
  · exact unresolved_without h hparams _
  · exact unresolved_without h hparams _
  · exact unresolved_without h hparams _

/-- The stub of one test of a function. -/
theorem unresolved_testStub (h : IsInside c s) (hc : HasIdentifiers c) (f : Function) :
    (testStub c f).unresolved s = [] := by
  have hresult : (Ty.generic "TestContractResult" [returnsType f.returns]).unresolved s = [] :=
    unresolved_fixedOf h (by decide) (unresolved_returnsType h _)
  refine unresolved_stub h rfl (unresolved_testParams h hc f) hresult (by decide) ?_
  have hinner := h.withParams [⟨"params", isTestOptional c f, some (testParams c f)⟩]
  rw [List.forall_mem_cons, List.forall_mem_cons, List.forall_mem_singleton]
  exact ⟨missing_eq_nil_iff.2 (hinner.binds_fixedValue (by decide)), rfl,
    unresolved_stubArgument hinner _ (binds_param (by decide) List.mem_cons_self)⟩

/-- The method that gives the fields with their defaults. -/
theorem unresolved_initialFields (h : IsInside c s) (hc : HasIdentifiers c)
    (hwanted : c.hasUserFields = true) :
    (ClassMember.method (initialFields c)).unresolved s = [] := by
  have hinner := h.withParams (initialFields c).params
  have hcontract : (s.withParams (initialFields c).params).missing (.value "this.contract") = [] :=
    missing_eq_nil_iff.2 (hinner.binds_path "this" (by decide) (by decide))
  refine unresolvedOfFunction_ret_eq_nil_iff.2
    ⟨unresolvedSignature_eq_nil_iff.2 ⟨nofun, unresolved_fields h hc hwanted⟩, ?_⟩
  unfold Expr.callMethod
  rw [Expr.unresolved, Expr.unresolved, Expr.unresolved, Expr.unresolved, hcontract,
    unresolved_fields hinner hc hwanted]
  rfl

theorem unresolved_atAddress (h : IsInside c s) (hc : HasIdentifiers c) :
    (ClassMember.method (atAddress c)).unresolved s = [] := by
  have hclass : (s.withParams (atAddress c).params).missing (.value (instanceName c.name)) = [] :=
    missing_eq_nil_iff.2 ((h.withParams _).binds_instanceValue hc)
  have haddress : (s.withParams (atAddress c).params).missing (.value "address") = [] :=
    missing_eq_nil_iff.2 (binds_param (by decide) List.mem_cons_self)
  refine unresolvedOfFunction_ret_eq_nil_iff.2
    ⟨unresolvedSignature_eq_nil_iff.2 ⟨?_, missing_eq_nil_iff.2 (h.binds_instance hc)⟩, ?_⟩
  · exact List.forall_mem_singleton.2 (unresolved_fixed h (by decide))
  · rw [Expr.unresolved, hclass, unresolvedOfExprs, Expr.unresolved, haddress]
    rfl

/-- All members of the factory together, each under its own condition. -/
theorem unresolved_factory (h : IsInside c s) (hc : HasIdentifiers c) :
    (factory c).unresolved s = [] := by
  have hfields : (factoryFields c).unresolved s = [] := by
    unfold factoryFields
    split
    · next hwanted => exact unresolved_fields h hc hwanted
    · rfl
  have hparent : (Ty.generic "ContractFactory"
      [.named (instanceName c.name), factoryFields c]).unresolved s = [] :=
    unresolved_generic_eq_nil_iff.2 ⟨h.binds_fixed (by decide), List.forall_mem_cons.2
      ⟨missing_eq_nil_iff.2 (h.binds_instance hc), List.forall_mem_singleton.2 hfields⟩⟩
  refine (unresolved_classDecl_eq_nil_iff rfl rfl).2
    ⟨hparent, h.binds_fixedValue (by decide), fun m hm => ?_⟩
  unfold factory at hm
  simp only [List.mem_append] at hm
  rcases hm with (((hm | hm) | hm) | hm) | hm
  · rw [mem_methodIf hm]
    exact unresolved_initialFields h hc (wanted_of_mem_methodIf hm)
  · rw [mem_propertyIf hm]
    exact unresolved_eventIndex s c
  · rw [mem_propertyIf hm]
    exact unresolved_constants s c
  · rw [List.mem_singleton.1 hm]
    exact unresolved_atAddress h hc
  · rw [mem_propertyIf hm]
    refine unresolved_record_eq_nil_iff.2 fun stub hstub => ?_
    obtain ⟨f, -, rfl⟩ := List.mem_map.1 hstub
    exact unresolved_testStub h hc f

/-- The constant that the factory is constructed for. -/
theorem unresolved_factoryValue (h : IsInside c s) (hc : HasIdentifiers c) (info : CodeInfo) :
    (factoryValue c info).unresolved s = [] := by
  have hclass : s.missing (.value "Factory") = [] :=
    missing_eq_nil_iff.2 (h.binds_fixedValue (by decide))
  have hjson : (Expr.ident (contractJsonName c.name)).unresolved s = [] :=
    missing_eq_nil_iff.2 (h.binds_own (no_dot_ending hc.name (by decide))
      (List.mem_cons_of_mem _ List.mem_cons_self))
  have hcall : (Expr.callNamed "Contract.fromJson" [.ident (contractJsonName c.name),
      .str info.bytecodeDebugPatch, .str info.codeHashDebug]).unresolved s = [] := by
    rw [unresolved_callNamed_eq_nil_iff, List.forall_mem_cons, List.forall_mem_cons,
      List.forall_mem_singleton]
    exact ⟨h.binds_path "Contract" (by decide) (by decide), hjson, rfl, rfl⟩
  unfold factoryValue
  rw [Expr.unresolved, hclass, unresolvedOfExprs, hcall]
  rfl

/-! ## Instances -/

/-- A method that calls one function of the runtime. -/
theorem unresolved_calling (h : IsInside c s) {params : List TypeScript.Param} {returns : Ty}
    (hparams : ∀ t ∈ params.filterMap TypeScript.Param.type, t.unresolved s = [])
    (hreturns : returns.unresolved s = []) {callee : String} (hcallee : callee ∈ fixedValues)
    {args : List Expr} (hargs : ∀ e ∈ args, e.unresolved (s.withParams params) = []) :
    unresolvedOfFunction s [] params (some returns) [.ret (.callNamed callee args)] = [] :=
  unresolvedOfFunction_ret_eq_nil_iff.2
    ⟨unresolvedSignature_eq_nil_iff.2 ⟨hparams, hreturns⟩,
      unresolved_callNamed_eq_nil_iff.2 ⟨(h.withParams params).binds_fixedValue hcallee, hargs⟩⟩

theorem unresolved_this (h : IsInside c s) : (Expr.ident "this").unresolved s = [] :=
  missing_eq_nil_iff.2 (h.binds_fixedValue (by decide))

theorem unresolved_contractValue (h : IsInside c s) (hc : HasIdentifiers c) :
    (Expr.ident c.name).unresolved s = [] :=
  missing_eq_nil_iff.2 (h.binds_own hc.name.no_dot List.mem_cons_self)

theorem unresolved_constructor (h : IsInside c s) :
    (ClassMember.constructor [{ name := "address", type := some (.named "Address") }]
      [.expr (.callNamed "super" [.ident "address"])]).unresolved s = [] := by
  refine unresolved_constructor_eq_nil_iff.2 ⟨?_, ?_⟩
  · exact List.forall_mem_singleton.2 (unresolved_fixed h (by decide))
  · rw [unresolvedOfBlock, unresolvedOfBlock, Stmt.unresolved, List.append_nil,
      unresolved_callNamed_eq_nil_iff, List.forall_mem_singleton]
    exact ⟨(h.withParams _).binds_fixedValue (by decide),
      missing_eq_nil_iff.2 (binds_param (by decide) List.mem_cons_self)⟩

/-- The lookup of an instance in a list of deployments has its parameters around it. -/
theorem unresolved_inDeployments (h : IsInside c s) (hc : HasIdentifiers c) :
    (ClassMember.method (inDeployments c)).unresolved s = [] := by
  have hstring : (Ty.named "string").unresolved s = [] := unresolved_fixed h (by decide)
  have hnumber : (Ty.named "number").unresolved s = [] := unresolved_fixed h (by decide)
  have hresult : (Ty.named "DeployContractExecutionResult").unresolved s = [] :=
    unresolved_fixed h (by decide)
  have hrecord : (Ty.generic "Record"
      [.named "string", .named "DeployContractExecutionResult"]).unresolved s = [] :=
    unresolved_generic_eq_nil_iff.2 ⟨h.binds_fixed (by decide),
      List.forall_mem_cons.2 ⟨hstring, List.forall_mem_singleton.2 hresult⟩⟩
  have hlist : deploymentListType.unresolved s = [] :=
    unresolvedOfMembers_eq_nil_iff.2
      (List.forall_mem_cons.2 ⟨hstring, List.forall_mem_singleton.2 hrecord⟩)
  have hreturns : (Ty.union [.named (instanceName c.name), .named "undefined"]).unresolved s = [] :=
    unresolvedOfTypes_eq_nil_iff.2 (List.forall_mem_cons.2
      ⟨missing_eq_nil_iff.2 (h.binds_instance hc),
        List.forall_mem_singleton.2 (unresolved_fixed h (by decide))⟩)
  refine unresolvedOfFunction_ret_eq_nil_iff.2
    ⟨unresolvedSignature_eq_nil_iff.2 ⟨?_, hreturns⟩, ?_⟩
  · exact List.forall_mem_cons.2 ⟨hlist,
      List.forall_mem_cons.2 ⟨hnumber, List.forall_mem_singleton.2 hstring⟩⟩
  · -- In the body the parameters are bound too, and what was bound around it still is.
    have hinner := h.withParams (inDeployments c).params
    have hload : (s.withParams (inDeployments c).params).missing
        (.value "loadContractInstanceFromDeployments") = [] :=
      missing_eq_nil_iff.2 (hinner.binds_fixedValue (by decide))
    have hinstance : (Ty.named (instanceName c.name)).unresolved
        (s.withParams (inDeployments c).params) = [] :=
      missing_eq_nil_iff.2 (hinner.binds_instance hc)
    have hparam : ∀ name ∈ ["allDeployments", "group", "taskId"],
        (Expr.ident name).unresolved (s.withParams (inDeployments c).params) = [] := by
      have hdot : ∀ name ∈ ["allDeployments", "group", "taskId"], '.' ∉ name.toList := by decide
      exact fun name hname => missing_eq_nil_iff.2 (binds_param (hdot name hname) hname)
    rw [Expr.unresolved, Expr.unresolved, hload, List.flatMap_singleton, hinstance, List.nil_append,
      List.nil_append, unresolvedOfExprs_eq_nil_iff, List.forall_mem_cons, List.forall_mem_cons,
      List.forall_mem_cons, List.forall_mem_singleton]
    exact ⟨hparam _ (by decide), rfl, hparam _ (by decide), hparam _ (by decide)⟩

theorem unresolved_fetchState (h : IsInside c s) (hc : HasIdentifiers c) :
    (ClassMember.method (fetchState c)).unresolved s = [] := by
  have hstate : (qualified c "State").unresolved s = [] :=
    missing_eq_nil_iff.2 (h.binds_qualified hc (by decide) (exportedTypes_state c))
  have hinner := h.withParams (fetchState c).params
  refine unresolved_calling h (List.forall_mem_nil _)
    (unresolved_fixedOf h (by decide) hstate) (by decide) ?_
  rw [List.forall_mem_cons, List.forall_mem_singleton]
  exact ⟨unresolved_contractValue hinner hc, unresolved_this hinner⟩

theorem unresolved_eventsCount (h : IsInside c s) :
    (ClassMember.method eventsCount).unresolved s = [] := by
  have hnumber : (Ty.named "number").unresolved s = [] := unresolved_fixed h (by decide)
  have hinner := h.withParams eventsCount.params
  refine unresolved_calling h (List.forall_mem_nil _)
    (unresolved_fixedOf h (by decide) hnumber) (by decide) ?_
  exact List.forall_mem_singleton.2
    (missing_eq_nil_iff.2 (hinner.binds_path "this" (by decide) (by decide)))

/-- A reference to an event's type from the class, outside the namespace. -/
theorem unresolved_eventReference (h : IsInside c s) (hc : HasIdentifiers c) {e : Event}
    (he : e ∈ c.events) : (qualified c (eventTypeName e.name)).unresolved s = [] :=
  missing_eq_nil_iff.2 (h.binds_qualified hc (no_dot_ending (hc.events e he) (by decide))
    (mem_exportedTypes_event he))

/-- A subscription, which may name its event in the middle. -/
theorem unresolved_subscription (h : IsInside c s) (hc : HasIdentifiers c) {event : Ty}
    (hevent : event.unresolved s = []) {callee : String} (hcallee : callee ∈ fixedValues)
    (texts : List String) :
    unresolvedOfFunction s [] (subscriptionParams event) (some (.named "EventSubscription"))
      [.ret (.callNamed callee
        ([.ident (c.name ++ ".contract"), .ident "this", .ident "options"] ++
          (texts.map .str ++ [.ident "fromCount"])))] = [] := by
  have hinner := h.withParams (subscriptionParams event)
  have hparams : ∀ t ∈ (subscriptionParams event).filterMap TypeScript.Param.type,
      t.unresolved s = [] :=
    List.forall_mem_cons.2 ⟨unresolved_fixedOf h (by decide) hevent,
      List.forall_mem_singleton.2 (unresolved_fixed h (by decide))⟩
  have hoptions : (Expr.ident "options").unresolved
      (s.withParams (subscriptionParams event)) = [] :=
    missing_eq_nil_iff.2 (binds_param (by decide) List.mem_cons_self)
  have hfrom : (Expr.ident "fromCount").unresolved (s.withParams (subscriptionParams event)) = [] :=
    missing_eq_nil_iff.2 (binds_param (by decide) (List.mem_cons_of_mem _ List.mem_cons_self))
  refine unresolved_calling h hparams (unresolved_fixed h (by decide)) hcallee ?_
  rw [List.forall_mem_append, List.forall_mem_append, List.forall_mem_cons, List.forall_mem_cons,
    List.forall_mem_singleton, List.forall_mem_singleton]
  refine ⟨⟨missing_eq_nil_iff.2 (hinner.binds_contract hc), unresolved_this hinner, hoptions⟩,
    fun e he => ?_, hfrom⟩
  obtain ⟨text, -, rfl⟩ := List.mem_map.1 he
  rfl

theorem unresolved_subscribe (h : IsInside c s) (hc : HasIdentifiers c) {e : Event}
    (he : e ∈ c.events) : (ClassMember.method (subscribe c e)).unresolved s = [] :=
  unresolved_subscription h hc (unresolved_eventReference h hc he) (by decide) [e.name]

/-- The subscription to all events has a union of their types, empty or not. -/
theorem unresolved_subscribeAll (h : IsInside c s) (hc : HasIdentifiers c) :
    (ClassMember.method (subscribeAll c)).unresolved s = [] := by
  have hevents : (Ty.union
      (c.events.map fun e => qualified c (eventTypeName e.name))).unresolved s = [] := by
    refine unresolvedOfTypes_eq_nil_iff.2 fun t ht => ?_
    obtain ⟨e, he, rfl⟩ := List.mem_map.1 ht
    exact unresolved_eventReference h hc he
  exact unresolved_subscription h hc hevents (by decide) []

/-- The stub of a call refers to the types of calls, which one callable function suffices for. -/
theorem unresolved_callStub (h : IsInside c s) (hc : HasIdentifiers c) {f : Function}
    (hf : f ∈ c.callable) : (callStub c f).unresolved s = [] := by
  have hcallable : c.callable.isEmpty = false := List.isEmpty_eq_false_iff.2 (List.ne_nil_of_mem hf)
  have htype : ∀ name ∈ callTypeNames,
      (Ty.generic (qualifiedName c name) [.literal f.name]).unresolved s = [] := by
    intro name hname
    have hdot : ∀ name ∈ callTypeNames, '.' ∉ name.toList := by decide
    exact unresolved_generic_eq_nil_iff.2
      ⟨h.binds_qualified hc (hdot name hname) (mem_exportedTypes_call hcallable name hname),
        List.forall_mem_singleton.2 rfl⟩
  refine unresolved_stub h rfl (htype "CallMethodParams" (by decide))
    (htype "CallMethodResult" (by decide)) (by decide) ?_
  have hinner := h.withParams [⟨"params", !f.hasParams,
    some (.generic (qualifiedName c "CallMethodParams") [.literal f.name])⟩]
  rw [List.forall_mem_cons, List.forall_mem_cons, List.forall_mem_cons, List.forall_mem_cons,
    List.forall_mem_singleton]
  exact ⟨unresolved_contractValue hinner hc, unresolved_this hinner, rfl,
    unresolved_stubArgument hinner _ (binds_param (by decide) List.mem_cons_self),
    missing_eq_nil_iff.2 (hinner.binds_fixedValue (by decide))⟩

/-- The type parameter of a call of many functions, as it is written. -/
theorem pathsIn_multicall (hc : HasIdentifiers c) :
    pathsIn ("Calls extends " ++ qualifiedName c "MultiCallParams") =
      ["Calls", "extends", qualifiedName c "MultiCallParams"] := by
  have hchars : ∀ ch ∈ (qualifiedName c "MultiCallParams").toList, isPathChar ch = true := by
    unfold qualifiedName typesName
    rw [String.toList_append, String.toList_append, String.toList_append, List.forall_mem_append,
      List.forall_mem_append, List.forall_mem_append]
    refine ⟨⟨⟨fun ch hch => ?_, List.all_eq_true.1 (by decide)⟩,
      List.all_eq_true.1 (by decide)⟩, List.all_eq_true.1 (by decide)⟩
    unfold isPathChar
    rw [hc.name.chars ch hch, Bool.true_or]
  have hne : qualifiedName c "MultiCallParams" ≠ "" := by
    intro hempty
    have hchars := congrArg String.toList hempty
    unfold qualifiedName at hchars
    rw [String.toList_append] at hchars
    exact absurd (List.append_eq_nil_iff.1 hchars).2 (by decide)
  exact pathsIn_bounded hne hchars "Calls" (by decide) (List.all_eq_true.1 (by decide))

/-- The type parameter of a call of many functions is bound by its own signature. -/
theorem unresolved_multicall (h : IsInside c s) (hc : HasIdentifiers c)
    (hcallable : c.callable.isEmpty = false) :
    (ClassMember.method (multicall c)).unresolved s = [] := by
  have hinner := h.withTypes ["Calls"]
  have hbody := hinner.withParams (multicall c).params
  have hexported := mem_exportedTypes_call hcallable
  -- The type parameter is bound in the signature and in the body.
  have hresults : ∀ {s' : Visible}, IsInside c s' → "Calls" ∈ s'.types →
      (Ty.generic (qualifiedName c "MultiCallResults") [.named "Calls"]).unresolved s' = [] := by
    intro s' h' hparam
    have hcalls : (Ty.named "Calls").unresolved s' = [] :=
      missing_eq_nil_iff.2 (binds_type (by decide) hparam)
    exact unresolved_generic_eq_nil_iff.2
      ⟨h'.binds_qualified hc (by decide) (hexported "MultiCallResults" (by decide)),
        List.forall_mem_singleton.2 hcalls⟩
  have hbounds : unresolvedBounds (s.withTypes ["Calls"]) (multicall c).generics = [] := by
    refine (unresolvedBounds_singleton_eq_nil_iff (pathsIn_multicall hc)).2 fun word hword => ?_
    obtain ⟨hword, hkeyword⟩ := List.mem_filter.1 hword
    rcases List.mem_cons.1 hword with rfl | hword
    · exact absurd hkeyword (by decide)
    · rw [List.mem_singleton.1 hword]
      exact hinner.binds_qualified hc (by decide) (hexported "MultiCallParams" (by decide))
  have hsignature : unresolvedSignature (s.withTypes ["Calls"]) (multicall c).params
      (multicall c).returns = [] :=
    unresolvedSignature_eq_nil_iff.2
      ⟨List.forall_mem_singleton.2
        (missing_eq_nil_iff.2 (binds_type (by decide) List.mem_cons_self)),
        unresolved_fixedOf hinner (by decide) (hresults hinner List.mem_cons_self)⟩
  have hcall : (Expr.callNamed "multicallMethods"
      [.ident c.name, .ident "this", .ident "calls", .ident "getContractByCodeHash"]).unresolved
        ((s.withTypes ["Calls"]).withParams (multicall c).params) = [] := by
    rw [unresolved_callNamed_eq_nil_iff, List.forall_mem_cons, List.forall_mem_cons,
      List.forall_mem_cons, List.forall_mem_singleton]
    exact ⟨hbody.binds_fixedValue (by decide), unresolved_contractValue hbody hc,
      unresolved_this hbody, missing_eq_nil_iff.2 (binds_param (by decide) List.mem_cons_self),
      missing_eq_nil_iff.2 (hbody.binds_fixedValue (by decide))⟩
  have hblock : unresolvedOfBlock ((s.withTypes ["Calls"]).withParams (multicall c).params)
      (multicall c).body = [] :=
    List.append_eq_nil_iff.2
      ⟨List.append_eq_nil_iff.2 ⟨hcall, hresults hbody List.mem_cons_self⟩, rfl⟩
  show unresolvedOfFunction s [_] (multicall c).params (multicall c).returns (multicall c).body = []
  unfold unresolvedOfFunction
  dsimp only
  rw [withGenerics_singleton (pathsIn_multicall hc)]
  exact List.append_eq_nil_iff.2 ⟨List.append_eq_nil_iff.2 ⟨hbounds, hsignature⟩, hblock⟩

/-- All members of the instance's class together, each under its own condition. -/
theorem unresolved_instanceClass (h : IsInside c s) (hc : HasIdentifiers c) :
    (instanceClass c).unresolved s = [] := by
  refine (unresolved_classDecl_eq_nil_iff rfl rfl).2
    ⟨unresolved_fixed h (by decide), h.binds_fixedValue (by decide), fun m hm => ?_⟩
  unfold instanceClass at hm
  simp only [List.mem_append] at hm
  -- A member that is in the class was wanted, which gives what its references need.
  rcases hm with ((((hm | hm) | hm) | hm) | hm) | hm
  · simp only [List.mem_cons, List.not_mem_nil, or_false] at hm
    rcases hm with rfl | rfl | rfl
    · exact unresolved_constructor h
    · exact unresolved_inDeployments h hc
    · exact unresolved_fetchState h hc
  · rw [mem_methodIf hm]
    exact unresolved_eventsCount h
  · obtain ⟨e, he, rfl⟩ := List.mem_map.1 hm
    exact unresolved_subscribe h hc he
  · rw [mem_methodIf hm]
    exact unresolved_subscribeAll h hc
  · rw [mem_propertyIf hm]
    refine unresolved_record_eq_nil_iff.2 fun stub hstub => ?_
    obtain ⟨f, hf, rfl⟩ := List.mem_map.1 hstub
    exact unresolved_callStub h hc hf
  · rw [mem_methodIf hm]
    exact unresolved_multicall h hc (by simpa using wanted_of_mem_methodIf hm)

end Places

/-! ## The unit -/

/-- The unit of every contract whose names are identifiers. -/
theorem unresolved_contractUnit {c : Contract} (hc : HasIdentifiers c) (info : CodeInfo)
    (path : String) : (contractUnit c info path).unresolved = [] := by
  have h := isInside_unit c info path
  refine unresolvedOfItems_eq_nil_iff.2 ?_
  unfold contractUnit
  simp only [List.forall_mem_cons]
  exact ⟨rfl, rfl, rfl, rfl, rfl, rfl, unresolvedOfItems_eq_nil_iff.2 (unresolved_contractTypes h),
    unresolved_factory h hc, rfl, unresolved_factoryValue h hc info, rfl,
    unresolved_instanceClass h hc, List.forall_mem_nil _⟩

/-- **Whatever a contract's unit refers to is bound where it is used**: by what the unit imports and
declares, by its namespace, by a parameter around it, or by the language. -/
theorem contractUnit_resolves {p : Project} {c : Contract} (path : String)
    (hc : HasIdentifiers c) (hinfo : (p.info? c.name).isSome = true) :
    ∃ u, contractUnit? p c path = .ok u ∧ u.unresolved = [] := by
  obtain ⟨info, hinfo⟩ := Option.isSome_iff_exists.1 hinfo
  have hunit : contractUnit? p c path = .ok (contractUnit c info path) := by
    unfold contractUnit?
    rw [hinfo]
  exact ⟨_, hunit, unresolved_contractUnit hc info path⟩

theorem contractUnit_resolves_coin :
    HasIdentifiers coin ∧
      ∃ u, contractUnit? (coinProject "Coin") coin "Coin.ral.json" = .ok u ∧
        u.unresolved = [] := by
  have hsent : IsIdentifier "Sent" :=
    ⟨by decide, List.all_eq_true.1 (by decide), by decide⟩
  have hcoin : HasIdentifiers coin :=
    ⟨⟨by decide, List.all_eq_true.1 (by decide), by decide⟩, List.forall_mem_singleton.2 hsent⟩
  exact ⟨hcoin, contractUnit_resolves (p := coinProject "Coin") "Coin.ral.json" hcoin rfl⟩

end TypedBindings.Binding
