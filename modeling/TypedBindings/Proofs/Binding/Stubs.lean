import Mathlib.Data.List.Forall2
import TypedBindings.Proofs.Binding.ContractParts

/-!
# The stubs of a contract's functions

A stub whose parameter may be left out passes an empty object on in its place, so the type of the
parameter must not want anything then. Whether a function has parameters, and the contract fields, is
asked for the parameter, for its type and for the default separately.

* `Ty.omitted`, `Ty.whole`: the slots that are left out of a type, and the type that they are left out
  of.
* `Stub`: a stub in parts, and `Stub.IsCoherent`: its default goes with an optional parameter.
* `IsTestStub`, `IsCallStub`, `IsCallEntry`: the stubs of a function, and its entry in the table of
  calls.
* `stubs_fit`: so are the stubs and entries of every contract's unit.
-/

namespace TypedBindings.TypeScript

/-- The texts of a literal type, or of a union of them. -/
def Ty.literals : Ty → List String
  | .literal text => [text]
  | .union variants => variants.filterMap fun
    | .literal text => some text
    | _ => none
  | _ => []

/-- The slots that `Omit` leaves out of a type. -/
def Ty.omitted : Ty → List String
  | .generic "Omit" [_, keys] => keys.literals
  | _ => []

/-- The type that slots are left out of. -/
def Ty.whole : Ty → Ty
  | .generic "Omit" [type, _] => type
  | type => type

@[simp] theorem Ty.whole_without (type : Ty) (keys : List String) :
    (type.without keys).whole = type := rfl

theorem Ty.literals_unionOf (keys : List String) : (unionOf (keys.map .literal)).literals = keys := by
  have hunion : (Ty.union (keys.map .literal)).literals = keys := by
    rw [literals, List.filterMap_map]
    exact (congrFun List.filterMap_eq_map' keys).trans (List.map_id keys)
  match keys with
  | [] => exact hunion
  | [_] => rfl
  | _ :: _ :: _ => exact hunion

@[simp] theorem Ty.omitted_without (type : Ty) (keys : List String) :
    (type.without keys).omitted = keys := literals_unionOf keys

/-- A stub in parts: an asynchronous function of one parameter that passes it on in a call. -/
structure Stub where
  isOptional : Bool
  /-- The type of the parameter. -/
  params : Ty
  result : Ty
  callee : String
  before : List Expr
  /-- What is passed on for the parameter. -/
  argument : Expr
  after : List Expr

/-- The expression that a stub is. -/
def Stub.expr (s : Stub) : Expr :=
  .arrowBlock
    { isAsync := true
      params := [{ name := "params", isOptional := s.isOptional, type := some s.params }]
      returns := some (.generic "Promise" [s.result]) }
    [.ret (.call (.ident s.callee) [] (s.before ++ s.argument :: s.after))]

/-- The parameter, or an empty object if it is left out. -/
def paramsOrEmpty : Expr :=
  .cond (.binary (.ident "params") .strictEq .undefined) (.object []) (.ident "params")

/-- **The default goes with an optional parameter**, and the parameter itself with one that must be
given. -/
structure Stub.IsCoherent (s : Stub) : Prop where
  default_iff : s.argument = paramsOrEmpty ↔ s.isOptional = true
  given_iff : s.argument = .ident "params" ↔ s.isOptional = false

end TypedBindings.TypeScript

namespace TypedBindings.Binding

open Abi TypeScript

/-! ## What fits -/

/-- **A slot of a type** is left out if there is nothing for it, and then its content is `never`;
otherwise it has the content that it is for. -/
structure FillsSlot (type : Ty) (slot : String) (content wanted : Ty) (isEmpty : Prop) : Prop where
  never_iff : content = .named "never" ↔ slot ∈ type.omitted
  omitted_iff : slot ∈ type.omitted ↔ isEmpty
  content_eq : ¬ isEmpty → content = wanted

/-- **The stub that tests a function.** Its parameter may be left out if neither the function has
parameters nor the contract fields. -/
structure IsTestStub (c : Contract) (f : Function) (s : Stub) : Prop where
  coherent : s.IsCoherent
  isOptional_iff : s.isOptional = true ↔ f.params = [] ∧ ¬ ∃ d ∈ c.fields, IsShown d
  params : ∃ fields args, s.params.whole = .generic "TestContractParams" [fields, args] ∧
    FillsSlot s.params "initialFields" fields (qualified c "Fields")
      (¬ ∃ d ∈ c.fields, IsShown d) ∧
    FillsSlot s.params "testArgs" args (paramsType f.params) (f.params = [])
  result : s.result = .generic "TestContractResult" [returnsType f.returns]
  call : s.callee = "testMethod" ∧ s.before = [.ident "this", .str f.name] ∧ s.after = []

/-- **The stub that calls a function**, with a parameter of the type that the table of calls has for
it. -/
structure IsCallStub (c : Contract) (f : Function) (s : Stub) : Prop where
  coherent : s.IsCoherent
  isOptional_iff : s.isOptional = true ↔ f.params = []
  params : s.params = .generic (qualifiedName c "CallMethodParams") [.literal f.name]
  result : s.result = .generic (qualifiedName c "CallMethodResult") [.literal f.name]
  call : s.callee = "callMethod" ∧ s.before = [.ident c.name, .ident "this", .str f.name] ∧
    s.after = [.ident "getContractByCodeHash"]

/-- **The entry of a function in the table of calls.** Its parameters have no `args` if the function
has none, and its result is of the type that the result of a test is of. -/
def IsCallEntry (f : Function) (m : Member Ty) : Prop :=
  ∃ params, m = .plain f.name (.object
      [.plain "params" params,
        .plain "result" (.generic "CallContractResult" [returnsType f.returns])]) ∧
    params.whole = .generic "CallContractParams" [paramsType f.params] ∧
    ("args" ∈ params.omitted ↔ f.params = [])

/-- The members of the table of calls. -/
def tableMembers (types : List Item) : List (Member Ty) :=
  ((findInterface? types "CallMethodTable").map Interface.members).getD []

/-- **The stubs of a contract's functions**, and the entries of those that can be queried, one for
each function and in the same order. -/
structure StubsFit (c : Contract) (types : List Item) (d i : ClassDecl) : Prop where
  tests : List.Forall₂ (fun f e => ∃ s : Stub, e = .field f.name s.expr ∧ IsTestStub c f s)
    c.functions (d.propertyEntries "tests")
  methods : List.Forall₂ (fun f e => ∃ s : Stub, e = .field f.name s.expr ∧ IsCallStub c f s)
    (c.functions.filter (IsQuery ·)) (i.propertyEntries "methods")
  table : List.Forall₂ IsCallEntry (c.functions.filter (IsQuery ·)) (tableMembers types)

/-! ## One function -/

variable (c : Contract) (f : Function)

theorem hasParams_iff : f.hasParams = true ↔ f.params ≠ [] := by
  unfold Function.hasParams
  simp

theorem isTestOptional_iff :
    isTestOptional c f = true ↔ f.params = [] ∧ ¬ ∃ d ∈ c.fields, IsShown d := by
  unfold isTestOptional
  rw [← hasUserFields_iff, Bool.and_eq_true, Bool.not_eq_true', Bool.not_eq_true',
    ← Bool.not_eq_true, hasParams_iff, not_not, Bool.not_eq_true]

/-- What a stub passes on goes with whether its parameter is optional. -/
theorem isCoherent_of_argument {s : Stub} (h : s.argument = stubArgument s.isOptional) :
    s.IsCoherent := by
  constructor
  · rw [h]
    cases s.isOptional with
    | true => exact iff_of_true rfl rfl
    | false => exact iff_of_false nofun nofun
  · rw [h]
    cases s.isOptional with
    | true => exact iff_of_false nofun nofun
    | false => exact iff_of_true rfl rfl

theorem qualified_ne_never (name : String) : qualified c name ≠ .named "never" := by
  intro h
  -- the one name has a dot, the other has none
  have hdot : '.' ∈ (qualifiedName c name).toList := by
    unfold qualifiedName
    simp
  rw [Ty.named.inj h] at hdot
  exact absurd hdot (by decide)

theorem FillsSlot.of_flag {type wanted : Ty} {slot : String} {isWanted : Bool} {isEmpty : Prop}
    (hwanted : wanted ≠ .named "never") (hempty : isEmpty ↔ isWanted = false)
    (homitted : slot ∈ type.omitted ↔ isWanted = false) :
    FillsSlot type slot (if isWanted then wanted else .named "never") wanted isEmpty where
  never_iff := by
    rw [homitted]
    cases isWanted with
    | true => exact iff_of_false hwanted nofun
    | false => exact iff_of_true rfl rfl
  omitted_iff := homitted.trans hempty.symm
  content_eq hne := by
    rw [hempty, Bool.not_eq_false] at hne
    exact if_pos hne

theorem omitted_testParams : (testParams c f).omitted =
    (if f.hasParams then [] else ["testArgs"]) ++
      if c.hasUserFields then [] else ["initialFields"] := by
  unfold testParams
  cases f.hasParams <;> cases c.hasUserFields <;> rfl

theorem whole_testParams : (testParams c f).whole = .generic "TestContractParams"
    [if c.hasUserFields then qualified c "Fields" else .named "never",
      if f.hasParams then paramsType f.params else .named "never"] := by
  unfold testParams
  cases f.hasParams <;> cases c.hasUserFields <;> rfl

theorem testParams_fits : ∃ fields args,
    (testParams c f).whole = .generic "TestContractParams" [fields, args] ∧
    FillsSlot (testParams c f) "initialFields" fields (qualified c "Fields")
      (¬ ∃ d ∈ c.fields, IsShown d) ∧
    FillsSlot (testParams c f) "testArgs" args (paramsType f.params) (f.params = []) := by
  refine ⟨_, _, whole_testParams c f, .of_flag (qualified_ne_never c _) ?_ ?_, .of_flag nofun ?_ ?_⟩
  · rw [← hasUserFields_iff, Bool.not_eq_true]
  · rw [omitted_testParams]
    cases f.hasParams <;> cases c.hasUserFields <;> simp
  · rw [← Bool.not_eq_true, hasParams_iff, not_not]
  · rw [omitted_testParams]
    cases f.hasParams <;> cases c.hasUserFields <;> simp

theorem testStub_fits : ∃ s : Stub, testStub c f = s.expr ∧ IsTestStub c f s :=
  ⟨{ isOptional := isTestOptional c f
     params := testParams c f
     result := .generic "TestContractResult" [returnsType f.returns]
     callee := "testMethod"
     before := [.ident "this", .str f.name]
     argument := stubArgument (isTestOptional c f)
     after := [] }, rfl,
    { coherent := isCoherent_of_argument rfl
      isOptional_iff := isTestOptional_iff c f
      params := testParams_fits c f
      result := rfl
      call := ⟨rfl, rfl, rfl⟩ }⟩

theorem callStub_fits : ∃ s : Stub, callStub c f = s.expr ∧ IsCallStub c f s :=
  ⟨{ isOptional := !f.hasParams
     params := .generic (qualifiedName c "CallMethodParams") [.literal f.name]
     result := .generic (qualifiedName c "CallMethodResult") [.literal f.name]
     callee := "callMethod"
     before := [.ident c.name, .ident "this", .str f.name]
     argument := stubArgument (!f.hasParams)
     after := [.ident "getContractByCodeHash"] }, rfl,
    { coherent := isCoherent_of_argument rfl
      isOptional_iff := by
        rw [Bool.not_eq_true', ← Bool.not_eq_true, hasParams_iff, not_not]
      params := rfl
      result := rfl
      call := ⟨rfl, rfl, rfl⟩ }⟩

theorem callEntry_fits : IsCallEntry f (callEntry f) := by
  refine ⟨_, rfl, ?_⟩
  by_cases hparams : f.hasParams = true
  · have hne := hasParams_iff f |>.1 hparams
    rw [if_pos hparams]
    exact ⟨rfl, iff_of_false List.not_mem_nil hne⟩
  · have hnil : f.params = [] := by rwa [hasParams_iff, not_not] at hparams
    rw [if_neg hparams, Ty.whole_without, Ty.omitted_without, hnil]
    exact ⟨rfl, iff_of_true (List.mem_singleton.2 rfl) rfl⟩

/-! ## The unit -/

theorem stubsFit : StubsFit c (contractTypes c) (factory c) (instanceClass c) where
  tests := by
    rw [propertyEntries_tests, List.forall₂_map_right_iff, List.forall₂_same]
    intro f _
    obtain ⟨s, hs, hfits⟩ := testStub_fits c f
    exact ⟨s, by rw [hs], hfits⟩
  methods := by
    rw [propertyEntries_methods, List.forall₂_map_right_iff, List.forall₂_same]
    intro f _
    obtain ⟨s, hs, hfits⟩ := callStub_fits c f
    exact ⟨s, by rw [hs], hfits⟩
  table := by
    have hmembers : tableMembers (contractTypes c) =
        (c.functions.filter (IsQuery ·)).map callEntry := by
      unfold tableMembers
      rw [members_table]
      split
      · rfl
      · next hnone =>
        have hempty : c.functions.filter (IsQuery ·) = [] := by simpa using hnone
        rw [hempty]
        rfl
    rw [hmembers, List.forall₂_map_right_iff, List.forall₂_same]
    exact fun f _ => callEntry_fits f

/-- **The stubs of a contract's functions fit**: a parameter is optional exactly where a default is
passed on for it, and exactly where its type wants nothing; and what a query returns is what its test
returns. -/
theorem stubs_fit (info : CodeInfo) (path : String) :
    ∃ types d i, (contractUnit c info path).namespaceDecl? (typesName c.name) = some types ∧
      (contractUnit c info path).classDecl? "Factory" = some d ∧
      (contractUnit c info path).classDecl? (instanceName c.name) = some i ∧
      StubsFit c types d i := by
  obtain ⟨hfactory, hinstance⟩ := classDecl?_contractUnit c info path
  exact ⟨_, _, _, namespaceDecl?_contractUnit c info path, hfactory, hinstance, stubsFit c⟩

end TypedBindings.Binding
