import TypedBindings.Proofs.Binding.ContractNames

/-!
# The parts of a contract's unit

A part for which a contract has nothing is left out, and the same question is asked in the
namespace, in the factory and in the class of instances. Here each answer is read off the contract.

* `DeclaresTypes`, `FactoryParts`, `InstanceParts`: what stands in the namespace and in the two
  classes, and when.
* `contract_parts`: the unit of every contract that the project knows has exactly these parts.
-/

namespace TypedBindings.TypeScript

/-! ## Members of a class -/

/-- The entries of a property whose value is an object literal. -/
def ClassDecl.propertyEntries (d : ClassDecl) (name : String) : List (Entry Expr) :=
  match d.member? name with
  | some (.property _ (.object entries)) => entries
  | _ => []

/-- The keys of a property are those of its entries. -/
theorem propertyKeys_eq (d : ClassDecl) (name : String) :
    d.propertyKeys name = (d.propertyEntries name).filterMap Entry.key? := by
  unfold ClassDecl.propertyKeys ClassDecl.propertyEntries
  cases d.member? name with
  | none => rfl
  | some m =>
    cases m with
    | constructor _ _ => rfl
    | method _ => rfl
    | property _ value => cases value <;> rfl

theorem keys_fields {α : Type} (key : α → String) (value : α → Expr) (xs : List α) :
    (xs.map fun x => Entry.field (key x) (value x)).filterMap Entry.key? = xs.map key := by
  rw [List.filterMap_map]
  exact congrFun List.filterMap_eq_map' xs

/-- A class has a member if one of its members has the name. -/
theorem hasMember_iff {d : ClassDecl} {name : String} :
    d.hasMember name = true ↔ name ∈ d.members.map ClassMember.name := by
  unfold ClassDecl.hasMember ClassDecl.member?
  simp only [List.find?_isSome, beq_iff_eq, List.mem_map]

/-- A member is found behind members of other names. -/
theorem member?_eq {d : ClassDecl} {front back : List ClassMember} {m : ClassMember}
    (hmembers : d.members = front ++ m :: back) (hfront : m.name ∉ front.map ClassMember.name) :
    d.member? m.name = some m := by
  have hnone : front.find? (fun other => other.name == m.name) = none := by
    rw [List.find?_eq_none]
    intro other hother heq
    exact hfront (List.mem_map.2 ⟨other, hother, beq_iff_eq.1 heq⟩)
  unfold ClassDecl.member?
  rw [hmembers, List.find?_append, hnone, Option.none_or]
  exact List.find?_cons_of_pos (beq_self_eq_true m.name)

/-! ## Types of a namespace -/

/-- A type is not found under a name that no declaration has. -/
theorem findAlias?_eq_none {items : List Item} {name : String} (h : name ∉ typeNames items) :
    findAlias? items name = none := by
  unfold findAlias?
  rw [List.findSome?_eq_none_iff]
  intro item hitem
  cases item with
  | aliasDecl decl =>
    have hother : decl.name ≠ name := by
      rintro rfl
      exact h (List.mem_filterMap.2 ⟨_, hitem, rfl⟩)
    exact if_neg hother
  | _ => rfl

theorem findInterface?_eq_none {items : List Item} {name : String} (h : name ∉ typeNames items) :
    findInterface? items name = none := by
  unfold findInterface?
  rw [List.findSome?_eq_none_iff]
  intro item hitem
  cases item with
  | interfaceDecl decl =>
    have hother : decl.name ≠ name := by
      rintro rfl
      exact h (List.mem_filterMap.2 ⟨_, hitem, rfl⟩)
    exact if_neg hother
  | _ => rfl

end TypedBindings.TypeScript

namespace TypedBindings.Binding

open Abi TypeScript

/-! ## What there is to bind -/

/-- A field that users see. -/
def IsShown (f : Field) : Prop := f.name ≠ interfaceIdField

instance : DecidablePred IsShown := fun f => inferInstanceAs (Decidable (f.name ≠ interfaceIdField))

/-- A function that can be queried: it is public and returns something. -/
def IsQuery (f : Function) : Prop := f.isPublic = true ∧ f.returns ≠ []

instance : DecidablePred IsQuery := fun f =>
  inferInstanceAs (Decidable (f.isPublic = true ∧ f.returns ≠ []))

/-- A field is shown if it is not the one that holds the interface's id. -/
theorem isUser_iff {f : Field} : f.isUser = true ↔ IsShown f := bne_iff_ne

/-- A function can be called if it is public and returns something. -/
theorem isCallable_iff {f : Function} : f.isCallable = true ↔ IsQuery f := by
  unfold Function.isCallable IsQuery
  simp

theorem userFields_eq (c : Contract) : c.userFields = c.fields.filter (IsShown ·) :=
  List.filter_congr fun f _ => by simp [← isUser_iff]

theorem callable_eq (c : Contract) : c.callable = c.functions.filter (IsQuery ·) :=
  List.filter_congr fun f _ => by simp [← isCallable_iff]

/-- The fields are declared if at least one is shown. -/
theorem hasUserFields_iff {c : Contract} :
    c.hasUserFields = true ↔ ∃ f ∈ c.fields, IsShown f := by
  unfold Contract.hasUserFields
  rw [userFields_eq]
  simp

/-- The types of calls are left out if no function can be called. -/
theorem callable_isEmpty_iff {c : Contract} :
    c.callable.isEmpty = true ↔ ¬ ∃ f ∈ c.functions, IsQuery f := by
  rw [callable_eq]
  simp

/-! ## The parts -/

/-- **The types of a contract's namespace.** -/
structure DeclaresTypes (c : Contract) (types : List Item) : Prop where
  /-- Nothing else than types is declared. -/
  only : ∀ item ∈ types, (∃ decl, item = .aliasDecl decl) ∨ ∃ decl, item = .interfaceDecl decl
  /-- The types in order: the fields if there are any to see, the state, one type for each event,
  and the table of calls with what goes with it if there is anything to query. -/
  names : typeNames types =
    (if ∃ f ∈ c.fields, IsShown f then ["Fields"] else []) ++ ["State"] ++
      c.events.map (fun e => e.name ++ "Event") ++
      (if ∃ f ∈ c.functions, IsQuery f then callTypeNames else [])
  fields : (findAlias? types "Fields").map TypeAlias.type =
    if ∃ f ∈ c.fields, IsShown f then
      some (.object ((c.fields.filter (IsShown ·)).map fun f => .plain f.name (typeOf f.type)))
    else none
  table : (findInterface? types "CallMethodTable").map (fun i => i.members.map Member.name) =
    if ∃ f ∈ c.functions, IsQuery f then some ((c.functions.filter (IsQuery ·)).map Function.name)
    else none

/-- **The parts of a contract's factory.** -/
structure FactoryParts (c : Contract) (d : ClassDecl) : Prop where
  initialFields : d.hasMember "getInitialFieldsWithDefaultValues" = true ↔
    ∃ f ∈ c.fields, IsShown f
  eventIndex : d.hasMember "eventIndex" = true ↔ c.events ≠ []
  consts : d.hasMember "consts" = true ↔ c.constants ≠ [] ∨ c.enums ≠ []
  tests : d.hasMember "tests" = true ↔ c.functions ≠ []
  /-- The index of an event is its place. -/
  indices : ∀ i : ℕ, (d.propertyEntries "eventIndex")[i]? =
    c.events[i]?.map fun e => .field e.name (.num i)
  constants : d.propertyKeys "consts" =
    c.constants.map NamedConstant.name ++ c.enums.map Enum.name
  tested : d.propertyKeys "tests" = c.functions.map Function.name

/-- **The parts of the class of a contract's instances.** -/
structure InstanceParts (c : Contract) (d : ClassDecl) : Prop where
  eventsCount : d.hasMember "getContractEventsCurrentCount" = true ↔ c.events ≠ []
  subscribeAll : d.hasMember "subscribeAllEvents" = true ↔ 2 ≤ c.events.length
  methods : d.hasMember "methods" = true ↔ ∃ f ∈ c.functions, IsQuery f
  multicall : d.hasMember "multicall" = true ↔ ∃ f ∈ c.functions, IsQuery f
  called : d.propertyKeys "methods" = (c.functions.filter (IsQuery ·)).map Function.name

/-! ## The namespace -/

/-- The types of the namespace in their order, each group under its condition. -/
theorem typeNames_contractTypes_eq (c : Contract) :
    typeNames (contractTypes c) =
      (if ∃ f ∈ c.fields, IsShown f then ["Fields"] else []) ++ ["State"] ++
        c.events.map (fun e => e.name ++ "Event") ++
        (if ∃ f ∈ c.functions, IsQuery f then callTypeNames else []) := by
  have hstate : typeNames (stateTypes c) =
      (if ∃ f ∈ c.fields, IsShown f then ["Fields"] else []) ++ ["State"] := by
    unfold stateTypes
    simp only [hasUserFields_iff]
    split <;> rfl
  have hcalls : typeNames (if c.callable.isEmpty then [] else callTypes c.callable) =
      if ∃ f ∈ c.functions, IsQuery f then callTypeNames else [] := by
    simp only [callable_isEmpty_iff, ite_not]
    split <;> rfl
  have hevents : (c.events.map Event.name).map eventTypeName =
      c.events.map fun e => e.name ++ "Event" := List.map_map ..
  unfold contractTypes
  rw [typeNames_append, typeNames_append, typeNames_events, hstate, hcalls, hevents]

/-- No type of an event has the name of a type that does not end so. -/
theorem not_mem_eventTypes {name : String} (h : ¬ "Event".toList <:+ name.toList)
    (events : List Event) : name ∉ events.map fun e => e.name ++ "Event" := by
  intro hmem
  obtain ⟨e, -, rfl⟩ := List.mem_map.1 hmem
  exact h (ending_suffix e.name "Event")

/-- The type of the fields has those that are shown, in their order. -/
theorem findAlias?_fields (c : Contract) :
    (findAlias? (contractTypes c) "Fields").map TypeAlias.type =
      if ∃ f ∈ c.fields, IsShown f then
        some (.object ((c.fields.filter (IsShown ·)).map fun f => .plain f.name (typeOf f.type)))
      else none := by
  by_cases hfields : ∃ f ∈ c.fields, IsShown f
  · have htype : fieldsType c.userFields =
        .object ((c.fields.filter (IsShown ·)).map fun f => .plain f.name (typeOf f.type)) := by
      unfold fieldsType recordType
      rw [userFields_eq, List.map_map]
      rfl
    have hstate : stateTypes c = .aliasDecl { name := "Fields", type := fieldsType c.userFields } ::
        [.aliasDecl { name := "State", type := .generic "ContractState" [.named "Fields"] }] := by
      unfold stateTypes
      rw [if_pos (hasUserFields_iff.2 hfields)]
    unfold contractTypes
    rw [if_pos hfields, hstate, htype]
    rfl
  · have hnames : "Fields" ∉ typeNames (contractTypes c) := by
      have hevents : "Fields" ∉ _ := not_mem_eventTypes (by decide) c.events
      rw [typeNames_contractTypes_eq, if_neg hfields]
      simp only [List.nil_append, List.mem_append, hevents, or_false, not_or]
      refine ⟨by decide, ?_⟩
      split <;> decide
    rw [if_neg hfields, findAlias?_eq_none hnames]
    rfl

/-- The table of calls stands behind the types of the state and of the events. -/
theorem members_table (c : Contract) :
    (findInterface? (contractTypes c) "CallMethodTable").map Interface.members =
      if ∃ f ∈ c.functions, IsQuery f then some ((c.functions.filter (IsQuery ·)).map callEntry)
      else none := by
  have hevents : "CallMethodTable" ∉ _ := not_mem_eventTypes (by decide) c.events
  by_cases hcalls : ∃ f ∈ c.functions, IsQuery f
  · have hfront : findInterface? (stateTypes c ++ c.events.map fun e => .aliasDecl (eventType e))
        "CallMethodTable" = none := by
      refine findInterface?_eq_none ?_
      rw [typeNames_append, typeNames_events, List.map_map, List.mem_append, not_or]
      exact ⟨fun hmem => absurd ((typeNames_stateTypes c).subset hmem) (by decide), hevents⟩
    have hcallable : ¬ c.callable.isEmpty = true := fun h => callable_isEmpty_iff.1 h hcalls
    unfold findInterface? at hfront ⊢
    unfold contractTypes
    rw [if_neg hcallable, if_pos hcalls, List.findSome?_append, hfront, Option.none_or,
      ← callable_eq]
    rfl
  · have hnames : "CallMethodTable" ∉ typeNames (contractTypes c) := by
      rw [typeNames_contractTypes_eq, if_neg hcalls]
      simp only [List.append_nil, List.mem_append, hevents, or_false, not_or]
      refine ⟨?_, by decide⟩
      split <;> decide
    rw [if_neg hcalls, findInterface?_eq_none hnames]
    rfl

/-- The table of calls has the functions that can be called, in their order. -/
theorem findInterface?_table (c : Contract) :
    (findInterface? (contractTypes c) "CallMethodTable").map (fun i => i.members.map Member.name) =
      if ∃ f ∈ c.functions, IsQuery f then some ((c.functions.filter (IsQuery ·)).map Function.name)
      else none := by
  have hnames := congrArg (Option.map (List.map Member.name)) (members_table c)
  rw [Option.map_map] at hnames
  refine hnames.trans ?_
  split
  · rw [Option.map_some, List.map_map]
    rfl
  · rfl

/-- The namespace holds aliases and interfaces only. -/
theorem declares_of_mem {c : Contract} {item : Item} (h : item ∈ contractTypes c) :
    (∃ decl, item = .aliasDecl decl) ∨ ∃ decl, item = .interfaceDecl decl := by
  rcases List.mem_append.1 h with h | hcall
  · rcases List.mem_append.1 h with hstate | hevent
    · unfold stateTypes at hstate
      split at hstate
      · simp only [List.mem_cons, List.not_mem_nil, or_false] at hstate
        rcases hstate with rfl | rfl <;> exact Or.inl ⟨_, rfl⟩
      · rw [List.mem_singleton.1 hstate]
        exact Or.inl ⟨_, rfl⟩
    · obtain ⟨e, -, rfl⟩ := List.mem_map.1 hevent
      exact Or.inl ⟨_, rfl⟩
  · split at hcall
    · exact absurd hcall List.not_mem_nil
    · rcases List.mem_cons.1 hcall with rfl | hcall
      · exact Or.inr ⟨_, rfl⟩
      · simp only [List.mem_cons, List.not_mem_nil, or_false] at hcall
        rcases hcall with rfl | rfl | rfl | rfl <;> exact Or.inl ⟨_, rfl⟩

/-- All that is stated of the namespace's types, for every contract. -/
theorem declaresTypes (c : Contract) : DeclaresTypes c (contractTypes c) where
  only _ := declares_of_mem
  names := typeNames_contractTypes_eq c
  fields := findAlias?_fields c
  table := findInterface?_table c

/-! ## The classes -/

theorem mem_names_propertyIf {wanted : Bool} {name other : String} {value : Expr} :
    other ∈ (propertyIf wanted name value).map ClassMember.name ↔ wanted = true ∧ other = name := by
  cases wanted <;> simp [propertyIf, ClassMember.name]

theorem mem_names_methodIf {wanted : Bool} {m : Method} {other : String} :
    other ∈ (methodIf wanted m).map ClassMember.name ↔ wanted = true ∧ other = m.name := by
  cases wanted <;> simp [methodIf, ClassMember.name]

/-- **A property that is left out when empty**, and whose name nothing else has, has the fields
that it was given. -/
theorem propertyEntries_of_propertyIf {d : ClassDecl} {front back : List ClassMember}
    {wanted : Bool} {name : String} {fields : List (String × Expr)}
    (hmembers : d.members = front ++ propertyIf wanted name (.record fields) ++ back)
    (hfront : name ∉ front.map ClassMember.name) (hback : name ∉ back.map ClassMember.name)
    (hwanted : wanted = !fields.isEmpty) :
    d.propertyEntries name = fields.map fun (key, value) => .field key value := by
  unfold ClassDecl.propertyEntries
  cases fields with
  | nil =>
    have habsent : d.hasMember name ≠ true := by
      intro h
      rw [hasMember_iff, hmembers, hwanted] at h
      simp only [List.map_append, List.mem_append, mem_names_propertyIf, hfront, hback] at h
      simp at h
    have hnone : d.member? name = none := by
      unfold ClassDecl.hasMember at habsent
      simpa using habsent
    rw [hnone]
    rfl
  | cons field rest =>
    rw [hwanted, List.append_assoc] at hmembers
    have hmember : d.member? name = some (.property name (.record (field :: rest))) :=
      member?_eq hmembers hfront
    rw [hmember]
    rfl

/-- The keys of a property that is left out when it would be empty, whatever stands around it. -/
theorem propertyKeys_of_propertyIf {d : ClassDecl} {front back : List ClassMember}
    {wanted : Bool} {name : String} {fields : List (String × Expr)}
    (hmembers : d.members = front ++ propertyIf wanted name (.record fields) ++ back)
    (hfront : name ∉ front.map ClassMember.name) (hback : name ∉ back.map ClassMember.name)
    (hwanted : wanted = !fields.isEmpty) : d.propertyKeys name = fields.map Prod.fst := by
  rw [propertyKeys_eq, propertyEntries_of_propertyIf hmembers hfront hback hwanted]
  exact Option.some.inj (keys?_record fields)

/-- The members of the factory, each under its condition. -/
theorem mem_names_factory {c : Contract} {name : String} :
    name ∈ (factory c).members.map ClassMember.name ↔
      (∃ f ∈ c.fields, IsShown f) ∧ name = "getInitialFieldsWithDefaultValues" ∨
      c.events ≠ [] ∧ name = "eventIndex" ∨
      (c.constants ≠ [] ∨ c.enums ≠ []) ∧ name = "consts" ∨ name = "at" ∨
      c.functions ≠ [] ∧ name = "tests" := by
  have hat : name ∈ [ClassMember.method (atAddress c)].map ClassMember.name ↔ name = "at" :=
    List.mem_singleton
  unfold factory
  dsimp only
  simp only [List.map_append, List.mem_append, mem_names_methodIf, mem_names_propertyIf, hat,
    hasUserFields_iff, Bool.or_eq_true, Bool.not_eq_true', List.isEmpty_eq_false_iff, initialFields,
    or_assoc, ne_eq]

/-- The index of an event is its position among all events. -/
theorem propertyEntries_eventIndex (c : Contract) (i : ℕ) :
    ((factory c).propertyEntries "eventIndex")[i]? =
      c.events[i]?.map fun e => .field e.name (.num i) := by
  have hmembers : (factory c).members = methodIf c.hasUserFields (initialFields c) ++
      propertyIf (!c.events.isEmpty) "eventIndex" (eventIndex c) ++
      (propertyIf (!c.constants.isEmpty || !c.enums.isEmpty) "consts" (constants c) ++
        [.method (atAddress c)] ++
        propertyIf (!c.functions.isEmpty) "tests"
          (.record (c.functions.map fun f => (f.name, testStub c f)))) := by
    unfold factory
    simp only [List.append_assoc]
  have hentries := propertyEntries_of_propertyIf hmembers
    (by simp [mem_names_methodIf, initialFields])
    (by simp [mem_names_propertyIf, ClassMember.name, atAddress])
    (by cases c.events <;> rfl)
  rw [hentries]
  simp only [List.getElem?_map, List.getElem?_zipIdx, Nat.zero_add, Option.map_map]
  rfl

/-- Constants come first and enums behind them. -/
theorem propertyKeys_consts (c : Contract) :
    (factory c).propertyKeys "consts" =
      c.constants.map NamedConstant.name ++ c.enums.map Enum.name := by
  have hmembers : (factory c).members = (methodIf c.hasUserFields (initialFields c) ++
      propertyIf (!c.events.isEmpty) "eventIndex" (eventIndex c)) ++
      propertyIf (!c.constants.isEmpty || !c.enums.isEmpty) "consts" (constants c) ++
      ([.method (atAddress c)] ++
        propertyIf (!c.functions.isEmpty) "tests"
          (.record (c.functions.map fun f => (f.name, testStub c f)))) := by
    unfold factory
    simp only [List.append_assoc]
  have hkeys := propertyKeys_of_propertyIf hmembers
    (by simp [mem_names_methodIf, mem_names_propertyIf, initialFields])
    (by simp [mem_names_propertyIf, ClassMember.name, atAddress])
    (by cases c.constants <;> cases c.enums <;> rfl)
  rw [hkeys, List.map_append, List.map_map, List.map_map]
  rfl

/-- There is a test for every function, also for one that cannot be called. -/
theorem propertyEntries_tests (c : Contract) :
    (factory c).propertyEntries "tests" = c.functions.map fun f => .field f.name (testStub c f) := by
  have hmembers : (factory c).members = (methodIf c.hasUserFields (initialFields c) ++
      propertyIf (!c.events.isEmpty) "eventIndex" (eventIndex c) ++
      propertyIf (!c.constants.isEmpty || !c.enums.isEmpty) "consts" (constants c) ++
      [.method (atAddress c)]) ++
      propertyIf (!c.functions.isEmpty) "tests"
        (.record (c.functions.map fun f => (f.name, testStub c f))) ++ [] := by
    rw [List.append_nil]
    rfl
  have hentries := propertyEntries_of_propertyIf hmembers
    (by simp [mem_names_methodIf, mem_names_propertyIf, initialFields, ClassMember.name, atAddress])
    List.not_mem_nil (by rw [List.isEmpty_map])
  rw [hentries, List.map_map]
  rfl

theorem propertyKeys_tests (c : Contract) :
    (factory c).propertyKeys "tests" = c.functions.map Function.name := by
  rw [propertyKeys_eq, propertyEntries_tests, keys_fields]

/-- All that is stated of the factory, for every contract. -/
theorem factoryParts (c : Contract) : FactoryParts c (factory c) where
  initialFields := by
    rw [hasMember_iff, mem_names_factory]
    simp
  eventIndex := by
    rw [hasMember_iff, mem_names_factory]
    simp
  consts := by
    rw [hasMember_iff, mem_names_factory]
    simp
  tests := by
    rw [hasMember_iff, mem_names_factory]
    simp
  indices := propertyEntries_eventIndex c
  constants := propertyKeys_consts c
  tested := propertyKeys_tests c

/-- A subscription to one event has no name that does not end as it does. -/
theorem not_mem_subscriptions {name : String} (h : ¬ "Event".toList <:+ name.toList) (c : Contract) :
    name ∉ (c.events.map fun e => ClassMember.method (subscribe c e)).map ClassMember.name := by
  intro hmem
  rw [List.map_map] at hmem
  obtain ⟨e, -, hname⟩ := List.mem_map.1 hmem
  have hending : ("subscribe" ++ e.name) ++ "Event" = name := by
    rw [← hname, String.append_assoc]
    rfl
  rw [← hending] at h
  exact h (ending_suffix ("subscribe" ++ e.name) "Event")

/-- The members of the instance class but the subscriptions to one event. -/
theorem mem_names_instanceClass {c : Contract} {name : String}
    (h : ¬ "Event".toList <:+ name.toList) :
    name ∈ (instanceClass c).members.map ClassMember.name ↔
      name ∈ ["constructor", "in", "fetchState"] ∨
      c.events ≠ [] ∧ name = "getContractEventsCurrentCount" ∨
      1 < c.events.length ∧ name = "subscribeAllEvents" ∨
      (∃ f ∈ c.functions, IsQuery f) ∧ name = "methods" ∨
      (∃ f ∈ c.functions, IsQuery f) ∧ name = "multicall" := by
  have hevents := not_mem_subscriptions h c
  have hcalls : (!c.callable.isEmpty) = true ↔ ∃ f ∈ c.functions, IsQuery f := by
    rw [Bool.not_eq_true', ← Bool.not_eq_true, callable_isEmpty_iff, not_not]
  unfold instanceClass
  dsimp only
  simp only [List.map_append, List.mem_append, mem_names_methodIf, mem_names_propertyIf, hevents,
    hcalls, or_false, or_assoc, decide_eq_true_eq]
  simp [ClassMember.name, inDeployments, fetchState, eventsCount, subscribeAll, multicall]

/-- There is a method for every function that can be called. -/
theorem propertyEntries_methods (c : Contract) :
    (instanceClass c).propertyEntries "methods" =
      (c.functions.filter (IsQuery ·)).map fun f => .field f.name (callStub c f) := by
  have hmembers : (instanceClass c).members =
      ([.constructor [{ name := "address", type := some (.named "Address") }]
          [.expr (.callNamed "super" [.ident "address"])],
        .method (inDeployments c), .method (fetchState c)] ++
        methodIf (!c.events.isEmpty) eventsCount ++
        c.events.map (fun e => .method (subscribe c e)) ++
        methodIf (decide (1 < c.events.length)) (subscribeAll c)) ++
      propertyIf (!c.callable.isEmpty) "methods"
        (.record (c.callable.map fun f => (f.name, callStub c f))) ++
      methodIf (!c.callable.isEmpty) (multicall c) := rfl
  have hevents : "methods" ∉ _ := not_mem_subscriptions (by decide) c
  have hentries := propertyEntries_of_propertyIf hmembers
    (by simp only [List.map_append, List.mem_append, mem_names_methodIf, hevents]
        simp [ClassMember.name, inDeployments, fetchState, eventsCount, subscribeAll])
    (by simp [mem_names_methodIf, multicall]) (by rw [List.isEmpty_map])
  rw [hentries, callable_eq, List.map_map]
  rfl

theorem propertyKeys_methods (c : Contract) :
    (instanceClass c).propertyKeys "methods" =
      (c.functions.filter (IsQuery ·)).map Function.name := by
  rw [propertyKeys_eq, propertyEntries_methods, keys_fields]

/-- All that is stated of the instance class, for every contract. -/
theorem instanceParts (c : Contract) : InstanceParts c (instanceClass c) where
  eventsCount := by
    rw [hasMember_iff, mem_names_instanceClass (by decide)]
    simp
  subscribeAll := by
    rw [hasMember_iff, mem_names_instanceClass (by decide)]
    simp [Nat.lt_iff_add_one_le]
  methods := by
    rw [hasMember_iff, mem_names_instanceClass (by decide)]
    simp
  multicall := by
    rw [hasMember_iff, mem_names_instanceClass (by decide)]
    simp
  called := propertyKeys_methods c

/-! ## The unit -/

theorem namespaceDecl?_contractUnit (c : Contract) (info : CodeInfo) (path : String) :
    (contractUnit c info path).namespaceDecl? (typesName c.name) = some (contractTypes c) := by
  unfold SourceUnit.namespaceDecl? contractUnit
  simp

/-- The factory comes first, and no class of instances has its name. -/
theorem classDecl?_contractUnit (c : Contract) (info : CodeInfo) (path : String) :
    (contractUnit c info path).classDecl? "Factory" = some (factory c) ∧
      (contractUnit c info path).classDecl? (instanceName c.name) = some (instanceClass c) := by
  have hname : "Factory" ≠ instanceName c.name := by
    intro h
    have hending : "Instance".toList <:+ "Factory".toList := h ▸ ending_suffix c.name "Instance"
    exact absurd hending (by decide)
  unfold SourceUnit.classDecl? contractUnit
  simp [factory, instanceClass, hname]

/-- **A contract's unit has a part exactly if the contract has something for it**, and the part
then has all of it, in order. -/
theorem contract_parts {p : Project} {c : Contract} (path : String)
    (hinfo : (p.info? c.name).isSome = true) :
    ∃ u types f i, contractUnit? p c path = .ok u ∧
      u.namespaceDecl? (typesName c.name) = some types ∧ u.classDecl? "Factory" = some f ∧
      u.classDecl? (instanceName c.name) = some i ∧
      DeclaresTypes c types ∧ FactoryParts c f ∧ InstanceParts c i := by
  obtain ⟨info, hinfo⟩ := Option.isSome_iff_exists.1 hinfo
  have hunit : contractUnit? p c path = .ok (contractUnit c info path) := by
    unfold contractUnit?
    rw [hinfo]
  obtain ⟨hfactory, hinstance⟩ := classDecl?_contractUnit c info path
  exact ⟨_, _, _, _, hunit, namespaceDecl?_contractUnit c info path, hfactory, hinstance,
    declaresTypes c, factoryParts c, instanceParts c⟩

/-- A contract with a hidden field only, two events, an enum, and one function of three that can be
queried. -/
def vault : Contract where
  name := "Vault"
  fields := [⟨interfaceIdField, .scalar .byteVec, false⟩]
  events := [⟨"Opened", []⟩, ⟨"Closed", []⟩]
  functions :=
    [{ name := "open", isPublic := true, usesPreapprovedAssets := false,
       usesContractAssets := false, params := [], returns := [] },
      { name := "secret", isPublic := false, usesPreapprovedAssets := false,
        usesContractAssets := false, params := [], returns := [.scalar .u256] },
      { name := "owner", isPublic := true, usesPreapprovedAssets := false,
        usesContractAssets := false, params := [], returns := [.scalar .address] }]
  constants := []
  enums := [⟨"State", []⟩]

/-- A contract without fields to show, with two events, one enum and one function to call. -/
theorem contract_parts_vault :
    ∃ u types f i, contractUnit? (coinProject "Vault") vault "Vault.ral.json" = .ok u ∧
      u.namespaceDecl? "VaultTypes" = some types ∧ u.classDecl? "Factory" = some f ∧
      u.classDecl? "VaultInstance" = some i ∧
      typeNames types = ["State", "OpenedEvent", "ClosedEvent"] ++ callTypeNames ∧
      f.hasMember "getInitialFieldsWithDefaultValues" = false ∧
      f.propertyKeys "consts" = ["State"] ∧ f.propertyKeys "tests" = ["open", "secret", "owner"] ∧
      i.propertyKeys "methods" = ["owner"] ∧ i.hasMember "subscribeAllEvents" = true := by
  have hinfo : ((coinProject "Vault").info? vault.name).isSome = true := by decide
  obtain ⟨u, types, f, i, hunit, htypes, hf, hi, hdeclares, hfactory, hinstance⟩ :=
    contract_parts "Vault.ral.json" hinfo
  have hhidden : ¬ ∃ f ∈ vault.fields, IsShown f := by decide
  refine ⟨u, types, f, i, hunit, htypes, hf, hi, hdeclares.names, ?_, hfactory.constants,
    hfactory.tested, hinstance.called, hinstance.subscribeAll.2 (by decide)⟩
  rw [← Bool.not_eq_true, hfactory.initialFields]
  exact hhidden

end TypedBindings.Binding
