import TypedBindings.Proofs.Artifact.Lowering

/-!
# What is wrong with an artifact

An artifact can have many faults at once. They stand here in one list, in the order in which the
artifact is gone through; lowering reports the first of them, and gives an interface if there is
none.

* `Reports`: a computation that ends with the first of some faults, and how such computations are
  put together.
* `Contract.faults`: every fault of a contract's artifact.
* `Contract.IsLowerable`: the artifacts without faults.
* `Contract.HasInterface`: what an interface takes over from an artifact.
* `Contract.interface_or_first_fault`: the interface of an artifact, or the first of its faults.
-/

namespace TypedBindings

/-! ## Reports -/

section

variable {ε α β : Type}

/-- **A computation that reports the first of some faults**, and no other. -/
def Reports (x : Except ε α) (faults : List ε) : Prop :=
  ∀ e, x = .error e ↔ faults.head? = some e

namespace Reports

variable {x : Except ε α} {faults : List ε}

/-- A step that succeeds reports nothing. -/
theorem ok (a : α) : Reports (.ok a : Except ε α) [] := fun _ => iff_of_false nofun nofun

/-- A step that fails reports its error. -/
theorem error (e : ε) : Reports (.error e : Except ε α) [e] := fun _ => by simp

/-- Where nothing is wrong there is a result. -/
theorem exists_ok_iff (h : Reports x faults) : (∃ a, x = .ok a) ↔ faults = [] := by
  cases x with
  | error e =>
    have hhead := (h e).1 rfl
    refine iff_of_false nofun ?_
    rintro rfl
    cases hhead
  | ok a =>
    refine iff_of_true ⟨a, rfl⟩ (List.head?_eq_none_iff.1 ?_)
    rw [Option.eq_none_iff_forall_ne_some]
    exact fun e he => nomatch (h e).2 he

/-- The faults of a first step come before those of the next. -/
theorem bind {f : α → Except ε β} {more : List ε} (hx : Reports x faults)
    (hf : ∀ a, x = .ok a → Reports (f a) more) : Reports (x >>= f) (faults ++ more) := by
  intro e
  cases x with
  | error e' =>
    have hstop : (Except.error e' >>= f) = .error e' := rfl
    rw [List.head?_append, (hx e').1 rfl, hstop]
    simp
  | ok a =>
    rw [hx.exists_ok_iff.1 ⟨a, rfl⟩]
    exact hf a rfl e

/-- A list is gone through up to the first step that fails. -/
theorem mapM {f : α → Except ε β} {each : α → List ε} (hf : ∀ a, Reports (f a) (each a))
    (as : List α) : Reports (as.mapM f) (as.flatMap each) := by
  induction as with
  | nil => exact ok []
  | cons a rest ih =>
    rw [List.mapM_cons, List.flatMap_cons]
    refine (hf a).bind fun b _ => ?_
    rw [← List.append_nil (rest.flatMap each)]
    exact ih.bind fun bs _ => ok _

end Reports

end

namespace Artifact

/-! ## Faults -/

/-- What is wrong with the descriptor of an item. -/
def typeFaults (item descriptor : String) : List LoweringFault :=
  match Abi.ValueType.ofDescriptor descriptor with
  | .ok _ => []
  | .error cause => [.badType item cause]

/-- The names that stand earlier in the list as well, in their order. -/
def repetitions (names : List String) : List String :=
  names.zipIdx.filterMap fun (name, i) => if name ∈ names.take i then some name else none

/-- What is wrong with names and their descriptors: the numbers of them, then the names, then the
descriptors. -/
def listFaults (owner : String) (mismatch : LoweringFault) (names types : List String) :
    List LoweringFault :=
  (if names.length = types.length then [] else [mismatch]) ++
    (repetitions names).map (.repeatedName owner) ++
    (names.zip types).flatMap fun (name, d) => typeFaults (owner ++ "." ++ name) d

/-- What is wrong with the fields of a contract. -/
def Fields.faults (owner : String) (f : Fields) : List LoweringFault :=
  listFaults owner (.fieldCount owner f.names.length f.types.length) f.names f.types

/-- What is wrong with parameters. -/
def paramFaults (owner : String) (names types : List String) : List LoweringFault :=
  listFaults owner (.count owner names.length types.length) names types

/-- What is wrong with an event. -/
def Event.faults (owner : String) (e : Event) : List LoweringFault :=
  paramFaults (owner ++ "." ++ e.name) e.fieldNames e.fieldTypes

/-- What is wrong with a function: its parameters, then what it returns. -/
def Function.faults (owner : String) (f : Function) : List LoweringFault :=
  paramFaults (owner ++ "." ++ f.name) f.paramNames f.paramTypes ++
    f.returnTypes.flatMap (typeFaults (owner ++ "." ++ f.name ++ ".return"))

/-- **What is wrong with a contract's artifact**: its fields, its events one by one, the names of its
functions, its functions one by one. -/
def Contract.faults (c : Contract) : List LoweringFault :=
  c.fields.faults c.name ++ c.events.flatMap (Event.faults c.name) ++
    (repetitions (c.functions.map Function.name)).map (.repeatedName c.name) ++
    c.functions.flatMap (Function.faults c.name)

/-! ## The first fault -/

/-- The first name that stands earlier as well is the one that the check of names finds. -/
theorem head?_repetitions (names : List String) :
    (repetitions names).head? = firstRepeated? [] names := by
  -- `front` has been gone through, and its names are those that are seen
  have hbehind : ∀ back front : List String, front ++ back = names →
      ((back.zipIdx front.length).filterMap fun (name, i) =>
        if name ∈ names.take i then some name else none).head? =
        firstRepeated? front.reverse back := by
    intro back
    induction back with
    | nil => intro front _; rfl
    | cons name rest ih =>
      intro front hnames
      have hfront : names.take front.length = front := by
        rw [← hnames, List.take_left]
      have hrest := ih (front ++ [name]) (by rw [← hnames, List.append_assoc]; rfl)
      rw [List.length_append, List.reverse_append] at hrest
      rw [List.zipIdx_cons, List.filterMap_cons, firstRepeated?]
      by_cases hseen : name ∈ front
      · simp [hfront, hseen]
      · simp only [hfront, hseen, List.mem_reverse, if_false]
        exact hrest
  exact hbehind names [] rfl

/-- Names are unique exactly if none stands earlier as well. -/
theorem repetitions_eq_nil_iff {names : List String} : repetitions names = [] ↔ names.Nodup := by
  rw [← List.head?_eq_none_iff, head?_repetitions, firstRepeated?_eq_none_iff]
  exact and_iff_left fun _ _ => List.not_mem_nil

/-- The check of names reports the first one that is repeated. -/
theorem reports_checkUnique (owner : String) (names : List String) :
    Reports (checkUnique owner names) ((repetitions names).map (.repeatedName owner)) := by
  intro e
  unfold checkUnique
  rw [List.head?_map, head?_repetitions]
  cases firstRepeated? [] names <;> simp

theorem reports_lowerType (item descriptor : String) :
    Reports (lowerType item descriptor) (typeFaults item descriptor) := by
  unfold lowerType typeFaults
  cases Abi.ValueType.ofDescriptor descriptor with
  | ok type => exact .ok type
  | error cause => exact .error _

/-- Descriptors are lowered one by one, each for the item that it describes. -/
theorem reports_lowerNamed (owner : String) (entries : List (String × String)) :
    Reports (lowerNamed owner entries)
      (entries.flatMap fun (name, d) => typeFaults (owner ++ "." ++ name) d) := by
  induction entries with
  | nil => exact .ok []
  | cons entry rest ih =>
    obtain ⟨name, d⟩ := entry
    rw [lowerNamed, List.flatMap_cons]
    refine (reports_lowerType _ d).bind fun type _ => ?_
    rw [← List.append_nil (rest.flatMap _)]
    exact ih.bind fun params _ => .ok _

/-- The faults of lists, whatever is made of them once they are put together. -/
theorem reports_lists {α : Type} {owner : String} {mismatch : LoweringFault}
    {names types : List String} {make : Unit → Except LoweringFault α}
    (hmake : Reports (make ()) ((repetitions names).map (.repeatedName owner) ++
      (names.zip types).flatMap fun (name, d) => typeFaults (owner ++ "." ++ name) d)) :
    Reports (if names.length ≠ types.length then throw mismatch >>= make else make ())
      (listFaults owner mismatch names types) := by
  unfold listFaults
  rw [List.append_assoc]
  by_cases hlength : names.length = types.length
  · rw [if_neg (not_not.2 hlength), if_pos hlength]
    exact hmake
  · rw [if_pos hlength, if_neg hlength]
    intro e
    show Except.error mismatch = Except.error e ↔ some mismatch = some e
    simp

theorem Fields.reports_lower (owner : String) (f : Fields) :
    Reports (f.lower owner) (f.faults owner) := by
  unfold Fields.lower Fields.faults
  refine reports_lists ((reports_checkUnique owner f.names).bind fun _ _ => ?_)
  rw [← List.append_nil (List.flatMap _ _)]
  exact (reports_lowerNamed owner _).bind fun params _ => .ok _

theorem reports_lowerParams (owner : String) (names types : List String) :
    Reports (lowerParams owner names types) (paramFaults owner names types) := by
  unfold lowerParams paramFaults
  exact reports_lists ((reports_checkUnique owner names).bind fun _ _ => reports_lowerNamed owner _)

theorem Event.reports_lower (owner : String) (e : Event) :
    Reports (e.lower owner) (e.faults owner) := by
  unfold Event.lower Event.faults
  rw [← List.append_nil (paramFaults _ _ _)]
  exact (reports_lowerParams _ _ _).bind fun fields _ => .ok _

theorem Function.reports_lower (owner : String) (f : Function) :
    Reports (f.lower owner) (f.faults owner) := by
  unfold Function.lower Function.faults
  refine (reports_lowerParams _ _ _).bind fun params _ => ?_
  rw [← List.append_nil (f.returnTypes.flatMap _)]
  exact (Reports.mapM (reports_lowerType _) f.returnTypes).bind fun returns _ => .ok _

/-- Lowering a contract fails with the first of its faults. -/
theorem Contract.reports_lower (c : Contract) : Reports c.lower c.faults := by
  unfold Contract.lower Contract.faults
  rw [List.append_assoc, List.append_assoc]
  refine (c.fields.reports_lower c.name).bind fun fields _ => ?_
  refine (Reports.mapM (Event.reports_lower c.name) c.events).bind fun events _ => ?_
  refine (reports_checkUnique c.name _).bind fun _ _ => ?_
  rw [← List.append_nil (c.functions.flatMap _)]
  exact (Reports.mapM (Function.reports_lower c.name) c.functions).bind fun functions _ => .ok _

/-! ## Artifacts without faults -/

/-- A text that is read as a type. -/
def IsDescriptor (text : String) : Prop := ∃ type, Abi.ValueType.ofDescriptor text = .ok type

/-- **Names and descriptors that go together**: as many of the ones as of the others, names that are
pairwise distinct, and descriptors that are read. -/
structure AreParallel (names types : List String) : Prop where
  length_eq : names.length = types.length
  nodup : names.Nodup
  readable : ∀ d ∈ types, IsDescriptor d

/-- **The artifacts that have an interface.** -/
structure Contract.IsLowerable (c : Contract) : Prop where
  fields : AreParallel c.fields.names c.fields.types
  events : ∀ e ∈ c.events, AreParallel e.fieldNames e.fieldTypes
  functions : (c.functions.map Function.name).Nodup
  params : ∀ f ∈ c.functions, AreParallel f.paramNames f.paramTypes
  returns : ∀ f ∈ c.functions, ∀ d ∈ f.returnTypes, IsDescriptor d

theorem typeFaults_eq_nil_iff {item descriptor : String} :
    typeFaults item descriptor = [] ↔ IsDescriptor descriptor := by
  unfold typeFaults IsDescriptor
  cases Abi.ValueType.ofDescriptor descriptor <;> simp

/-- Nothing is wrong with lists of one length that have unique names and good descriptors. -/
theorem listFaults_eq_nil_iff {owner : String} {mismatch : LoweringFault}
    {names types : List String} :
    listFaults owner mismatch names types = [] ↔ AreParallel names types := by
  unfold listFaults
  simp only [List.append_eq_nil_iff, List.map_eq_nil_iff, repetitions_eq_nil_iff,
    List.flatMap_eq_nil_iff, typeFaults_eq_nil_iff, ite_eq_left_iff, reduceCtorEq, imp_false,
    not_not]
  constructor
  · rintro ⟨⟨hlength, hnames⟩, htypes⟩
    refine ⟨hlength, hnames, fun d hd => ?_⟩
    -- every descriptor stands beside a name
    rw [← List.map_snd_zip (Nat.le_of_eq hlength.symm)] at hd
    obtain ⟨entry, hentry, rfl⟩ := List.mem_map.1 hd
    exact htypes entry hentry
  · rintro ⟨hlength, hnames, htypes⟩
    exact ⟨⟨hlength, hnames⟩, fun entry hentry => htypes _ (List.of_mem_zip hentry).2⟩

/-- The contracts without faults are those that can be lowered. -/
theorem Contract.faults_eq_nil_iff {c : Contract} : c.faults = [] ↔ c.IsLowerable := by
  unfold Contract.faults Fields.faults Event.faults Function.faults paramFaults
  simp only [List.append_eq_nil_iff, List.map_eq_nil_iff, List.flatMap_eq_nil_iff,
    repetitions_eq_nil_iff, listFaults_eq_nil_iff, typeFaults_eq_nil_iff]
  constructor
  · rintro ⟨⟨⟨hfields, hevents⟩, hnames⟩, hfunctions⟩
    exact ⟨hfields, hevents, hnames, fun f hf => (hfunctions f hf).1,
      fun f hf => (hfunctions f hf).2⟩
  · rintro ⟨hfields, hevents, hnames, hparams, hreturns⟩
    exact ⟨⟨⟨hfields, hevents⟩, hnames⟩, fun f hf => ⟨hparams f hf, hreturns f hf⟩⟩

/-! ## Interfaces -/

/-- Types that some descriptors are read as, one by one. -/
def AreReadAs (descriptors : List String) (types : List Abi.ValueType) : Prop :=
  List.Forall₂ (fun d type => Abi.ValueType.ofDescriptor d = .ok type) descriptors types

/-- The parameters that names and descriptors stand for. -/
structure HasParams (names types : List String) (params : List Abi.Param) : Prop where
  names : params.map Abi.Param.name = names
  types : AreReadAs types (params.map Abi.Param.type)

/-- The fields that three lists stand for. A field is mutable if the last list says so at its place,
and not if that list ends before it. -/
structure Fields.HasFields (f : Fields) (fields : List Abi.Field) : Prop where
  names : fields.map Abi.Field.name = f.names
  types : AreReadAs f.types (fields.map Abi.Field.type)
  isMutable : ∀ (i : ℕ) (field : Abi.Field), fields[i]? = some field →
    (field.isMutable = true ↔ f.isMutable[i]? = some true)

/-- An event of the interface that an event of the artifact gives. -/
structure Event.HasSignature (e : Event) (signature : Abi.Event) : Prop where
  name : signature.name = e.name
  fields : HasParams e.fieldNames e.fieldTypes signature.fields

/-- A function of the interface that a function of the artifact gives. -/
structure Function.HasSignature (f : Function) (signature : Abi.Function) : Prop where
  name : signature.name = f.name
  isPublic : signature.isPublic = f.isPublic
  usesPreapprovedAssets : signature.usesPreapprovedAssets = f.usesPreapprovedAssets
  usesContractAssets : signature.usesContractAssets = f.usesContractAssets
  params : HasParams f.paramNames f.paramTypes signature.params
  returns : AreReadAs f.returnTypes signature.returns

/-- **What an interface takes over from an artifact**: everything, in the same order. -/
structure Contract.HasInterface (c : Contract) (i : Abi.Contract) : Prop where
  name : i.name = c.name
  fields : c.fields.HasFields i.fields
  events : List.Forall₂ Event.HasSignature c.events i.events
  functions : List.Forall₂ Function.HasSignature c.functions i.functions
  constants : i.constants = c.constants
  enums : i.enums = c.enums

theorem ofDescriptor_of_lowerType {item descriptor : String} {type : Abi.ValueType}
    (h : lowerType item descriptor = .ok type) :
    Abi.ValueType.ofDescriptor descriptor = .ok type := mapError_eq_ok_iff.1 h

/-- Names and types stand side by side in the order of the artifact. -/
theorem lowerNamed_keeps {owner : String} {entries : List (String × String)}
    {params : List Abi.Param} (h : lowerNamed owner entries = .ok params) :
    HasParams (entries.map Prod.fst) (entries.map Prod.snd) params := by
  induction entries generalizing params with
  | nil => cases h; exact ⟨rfl, .nil⟩
  | cons entry rest ih =>
    obtain ⟨name, d⟩ := entry
    rw [lowerNamed] at h
    obtain ⟨type, htype, h⟩ := exists_of_bind_eq_ok h
    obtain ⟨params', hparams, h⟩ := exists_of_bind_eq_ok h
    cases h
    obtain ⟨hnames, htypes⟩ := ih hparams
    exact ⟨congrArg (name :: ·) hnames, .cons (ofDescriptor_of_lowerType htype) htypes⟩

theorem hasParams_of_lowerNamed {owner : String} {names types : List String}
    {params : List Abi.Param} (hlength : names.length = types.length)
    (h : lowerNamed owner (names.zip types) = .ok params) : HasParams names types params := by
  have hkept := lowerNamed_keeps h
  rwa [List.map_fst_zip (Nat.le_of_eq hlength), List.map_snd_zip (Nat.le_of_eq hlength.symm)]
    at hkept

/-- Mutability changes no name and no type. -/
theorem map_withMutability {α : Type} (k : Abi.Field → α) (g : Abi.Param → α)
    (hk : ∀ name type isMutable, k ⟨name, type, isMutable⟩ = g ⟨name, type⟩)
    (params : List Abi.Param) (flags : List Bool) :
    (withMutability params flags).map k = params.map g := by
  induction params generalizing flags with
  | nil => rfl
  | cons p rest ih => rw [withMutability, List.map_cons, List.map_cons, ih, hk]

/-- A field without a flag is not mutable. -/
theorem isMutable_withMutability {params : List Abi.Param} {flags : List Bool} {i : ℕ}
    {field : Abi.Field} (h : (withMutability params flags)[i]? = some field) :
    field.isMutable = true ↔ flags[i]? = some true := by
  induction params generalizing flags i with
  | nil => cases h
  | cons p rest ih =>
    rw [withMutability] at h
    cases i with
    | zero => cases h; cases flags <;> simp
    | succ i =>
      rw [← List.getElem?_tail]
      exact ih h

theorem Fields.hasFields_of_lower {owner : String} {f : Fields} {fields : List Abi.Field}
    (h : f.lower owner = .ok fields) : f.HasFields fields := by
  have hnone : f.faults owner = [] := (f.reports_lower owner).exists_ok_iff.1 ⟨fields, h⟩
  have hlength := (listFaults_eq_nil_iff.1 hnone).length_eq
  unfold Fields.lower at h
  rw [if_neg (not_not.2 hlength)] at h
  obtain ⟨_, -, h⟩ := exists_of_bind_eq_ok h
  obtain ⟨params, hparams, h⟩ := exists_of_bind_eq_ok h
  cases h
  obtain ⟨hnames, htypes⟩ := hasParams_of_lowerNamed hlength hparams
  refine ⟨?_, ?_, fun i field => isMutable_withMutability⟩
  · rw [map_withMutability Abi.Field.name Abi.Param.name fun _ _ _ => rfl, hnames]
  · rwa [map_withMutability Abi.Field.type Abi.Param.type fun _ _ _ => rfl]

theorem hasParams_of_lowerParams {owner : String} {names types : List String}
    {params : List Abi.Param} (h : lowerParams owner names types = .ok params) :
    HasParams names types params := by
  have hnone : paramFaults owner names types = [] :=
    (reports_lowerParams owner names types).exists_ok_iff.1 ⟨params, h⟩
  have hlength := (listFaults_eq_nil_iff.1 hnone).length_eq
  unfold lowerParams at h
  rw [if_neg (not_not.2 hlength)] at h
  obtain ⟨_, -, h⟩ := exists_of_bind_eq_ok h
  exact hasParams_of_lowerNamed hlength h

theorem Event.hasSignature_of_lower {owner : String} {e : Event} {signature : Abi.Event}
    (h : e.lower owner = .ok signature) : e.HasSignature signature := by
  unfold Event.lower at h
  obtain ⟨fields, hfields, h⟩ := exists_of_bind_eq_ok h
  cases h
  exact ⟨rfl, hasParams_of_lowerParams hfields⟩

theorem Function.hasSignature_of_lower {owner : String} {f : Function} {signature : Abi.Function}
    (h : f.lower owner = .ok signature) : f.HasSignature signature := by
  unfold Function.lower at h
  obtain ⟨params, hparams, h⟩ := exists_of_bind_eq_ok h
  obtain ⟨returns, hreturns, h⟩ := exists_of_bind_eq_ok h
  cases h
  have htypes : AreReadAs f.returnTypes returns :=
    (mapM_eq_ok_iff.1 hreturns).imp fun _ _ => ofDescriptor_of_lowerType
  exact ⟨rfl, rfl, rfl, rfl, hasParams_of_lowerParams hparams, htypes⟩

/-- What lowering gives is the interface of the artifact. -/
theorem Contract.hasInterface_of_lower {c : Contract} {i : Abi.Contract} (h : c.lower = .ok i) :
    c.HasInterface i := by
  unfold Contract.lower at h
  obtain ⟨fields, hfields, h⟩ := exists_of_bind_eq_ok h
  obtain ⟨events, hevents, h⟩ := exists_of_bind_eq_ok h
  obtain ⟨_, -, h⟩ := exists_of_bind_eq_ok h
  obtain ⟨functions, hfunctions, h⟩ := exists_of_bind_eq_ok h
  cases h
  exact {
    name := rfl
    fields := Fields.hasFields_of_lower hfields
    events := (mapM_eq_ok_iff.1 hevents).imp fun _ _ => Event.hasSignature_of_lower
    functions := (mapM_eq_ok_iff.1 hfunctions).imp fun _ _ => Function.hasSignature_of_lower
    constants := rfl
    enums := rfl }

/-- **An artifact has an interface exactly if nothing is wrong with it**; the interface has
everything that the artifact has, and otherwise the first fault is reported. -/
theorem Contract.interface_or_first_fault (c : Contract) :
    ((∃ i, c.lower = .ok i) ↔ c.IsLowerable) ∧ (∀ i, c.lower = .ok i → c.HasInterface i) ∧
      ∀ e, c.lower = .error e ↔ c.faults.head? = some e :=
  ⟨c.reports_lower.exists_ok_iff.trans c.faults_eq_nil_iff, fun _ => hasInterface_of_lower,
    c.reports_lower⟩

/-- Two fields, and the mutability of the first one only. -/
def pairContract : Contract where
  version := ""
  name := "Pair"
  bytecode := ""
  codeHash := ""
  fields := ⟨["left", "right"], ["U256", "[Bool;2]"], [true]⟩
  events := []
  functions := []
  constants := []
  enums := []

/-- An event that repeats a name and has two types that are none, and a function without a type for
its parameter. -/
def faultyContract : Contract :=
  { pairContract with
    events := [⟨"Moved", ["from", "to", "from"], ["Address", "x", "y"]⟩]
    functions := [⟨"move", false, false, true, ["amount"], [], [], []⟩] }

theorem interface_or_first_fault_pair :
    (∃ i, pairContract.lower = .ok i ∧ pairContract.HasInterface i ∧
      i.fields.map Abi.Field.isMutable = [true, false]) ∧
      faultyContract.lower = .error (.repeatedName "Pair.Moved" "from") := by
  have hlower : ∃ i, pairContract.lower = .ok i ∧
      i.fields.map Abi.Field.isMutable = [true, false] := ⟨_, rfl, rfl⟩
  obtain ⟨i, hi, hmutable⟩ := hlower
  exact ⟨⟨i, hi, (Contract.interface_or_first_fault pairContract).2.1 i hi, hmutable⟩,
    ((Contract.interface_or_first_fault faultyContract).2.2 _).2 (by rfl)⟩

end Artifact

end TypedBindings
