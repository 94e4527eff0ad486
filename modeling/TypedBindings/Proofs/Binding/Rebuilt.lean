import Mathlib.Data.Set.Function
import TypedBindings.Proofs.Binding.Rebuilding
import TypedBindings.Proofs.Deployment.Lookup

/-!
# Which records the generated rebuilding can rebuild

The generated function looks every task up by the schema of all records, and puts its entry under
the task's variable name. That goes wrong in three ways: a document may lack the member that tasks
are looked up in, an instance may stand in an array, and another task may take a variable's place.

* `IsRebuilt`: what should come out: each recorded result with the instance that `Deployments`
  gives its task.
* `CanRebuild`: the records for which it does.
* `rebuild_correct_iff`: a run gives what it should exactly for these records, and reads a property
  of `undefined` exactly if a member is missing.
-/

namespace TypedBindings.Binding

open TypeScript

/-- Of several tasks with one variable name, the one whose entry counts: the last. -/
def countingId (ids : List String) (id : String) : String :=
  ((ids.filter fun k => TaskId.variableName k = TaskId.variableName id).getLast?).getD id

/-- A recorded result with the instance of a handle. -/
def withHandle (result : Json) (handle : InstanceHandle) : Value :=
  withInstance result handle.className (.str handle.address)

/-- A recorded result with the instance that the deployments of the record give its task. -/
def deployedEntry? (n : Network) (r : DeployerRecord) (d : Json) (id : String) : Option Value :=
  ((Deployments.ofRecord n r).contract? id).bind fun deployed =>
    (recordedResult? d "contracts" id).map fun result => withHandle result deployed.handle

/-- A recorded result with an instance of its own. -/
def ownEntry? (r : DeployerRecord) (d : Json) (id : String) : Option Value :=
  (r.contracts.lookup id).bind fun c =>
    (recordedResult? d "contracts" id).map fun result =>
      withHandle result (DeployedContract.ofResult id c).handle

/-- The instance of a task stands in an object. -/
def HasInstanceObject (d : Json) (id : String) : Prop :=
  ∃ result members, recordedResult? d "contracts" id = some result ∧
    result.field? "contractInstance" = some (.obj members)

/-- **What should be made of a record**, from its document. -/
structure IsRebuilt (m : Manifests) (contracts : List String) (n : Network) (r : DeployerRecord)
    (d : Json) (v : Value) : Prop where
  /-- A contract with a binding has its recorded result, with its instance. -/
  contract : ∀ id ∈ r.contracts.map Prod.fst, isBound contracts id = true →
    ∃ entry, deployedEntry? n r d id = some entry ∧
      v.follow ["contracts", TaskId.variableName id] = .ok entry
  /-- An optional task that the record lacks is `undefined`. -/
  missing : ∀ id ∈ (boundSchema m contracts).contracts.optional, id ∉ r.contracts.map Prod.fst →
    v.follow ["contracts", TaskId.variableName id] = .ok .undefined
  /-- A script has its recorded result. -/
  script : ∀ id ∈ r.scripts.map Prod.fst, ∃ result, recordedResult? d "scripts" id = some result ∧
    v.follow ["scripts", TaskId.variableName id] = .ok (.ofJson result)

/-- **The records that can be rebuilt**, by their documents. -/
structure CanRebuild (m : Manifests) (contracts : List String) (n : Network) (r : DeployerRecord)
    (d : Json) : Prop extends HasMembers (boundSchema m contracts) d where
  /-- The instance that counts does not stand in an array. -/
  instances : ∀ id ∈ r.contracts.map Prod.fst, isBound contracts id = true →
    HasInstanceObject d (countingId (boundSchema m contracts).contracts.all id)
  /-- The task that counts has the result and the instance of the task itself. -/
  contract : ∀ id ∈ r.contracts.map Prod.fst, isBound contracts id = true →
    ownEntry? r d (countingId (boundSchema m contracts).contracts.all id) = deployedEntry? n r d id
  /-- No task of the record counts for one that it lacks. -/
  missing : ∀ id ∈ (boundSchema m contracts).contracts.optional, id ∉ r.contracts.map Prod.fst →
    countingId (boundSchema m contracts).contracts.all id ∉ r.contracts.map Prod.fst
  script : ∀ id ∈ r.scripts.map Prod.fst,
    recordedEntry d (countingId (boundSchema m contracts).scripts.all id) = recordedEntry d id

variable {d : Json} {r : DeployerRecord} {id : String} {m : Manifests} {contracts : List String}
  {n : Network}

/-! ## The entry that counts -/

theorem lookup_entriesOf {ids : List String} (hid : id ∈ ids) (entry : String → Value) :
    (entriesOf ids entry).lookup (TaskId.variableName id) = some (entry (countingId ids id)) := by
  obtain ⟨last, -, -, hlast⟩ := exists_getLast?_filter
    (p := fun k => TaskId.variableName k = TaskId.variableName id) hid (by simp)
  unfold entriesOf countingId
  rw [OrderedMap.lookup_ofList, List.filter_map, List.getLast?_map, Option.map_map]
  change ((ids.filter fun k => TaskId.variableName k = TaskId.variableName id).getLast?).map _ = _
  rw [hlast]
  rfl

theorem countingId_of_injOn {ids : List String} (hid : id ∈ ids)
    (hinj : Set.InjOn TaskId.variableName {k | k ∈ ids}) : countingId ids id = id := by
  obtain ⟨last, hin, hname, hlast⟩ := exists_getLast?_filter
    (p := fun k => TaskId.variableName k = TaskId.variableName id) hid (by simp)
  unfold countingId
  rw [hlast]
  exact hinj hin hid (of_decide_eq_true hname)

/-- A task whose variable name is its own has its own result there. -/
theorem contract?_of_injOn (hnodup : (r.contracts.map Prod.fst).Nodup)
    (hinj : Set.InjOn TaskId.variableName {k | k ∈ r.contracts.map Prod.fst}) {c : ContractResult}
    (hc : r.contracts.lookup id = some c) :
    (Deployments.ofRecord n r).contract? id = some (.ofResult id c) := by
  have hnames : (variableNames r.contracts).Nodup := by
    have hmap := hnodup.map_on fun _ hk _ hk' heq => hinj hk hk' heq
    rwa [List.map_map] at hmap
  exact Deployments.contract?_ofRecord.2
    ⟨(id, c), .of_nodup hnames (OrderedMap.mem_of_lookup hc), DeployedContract.isOf_iff.2 rfl⟩

/-! ## What a run gives for a task -/

theorem follow_obj {outer inner : List (String × Value)} {name key : String}
    (h : outer.lookup name = some (.obj inner)) :
    (Value.obj outer).follow [name, key] = .ok ((inner.lookup key).getD .undefined) := by
  unfold Value.follow
  rw [List.foldlM_cons, Value.get, h]
  rfl

theorem follow_contracts {s : Schema} (hid : id ∈ s.contracts.all) :
    (rebuiltValue s d).follow ["contracts", TaskId.variableName id] =
      .ok (rebuiltEntry d (countingId s.contracts.all id)) := by
  have hlookup : ∀ base scripts, (OrderedMap.put "scripts" scripts
      (OrderedMap.put "contracts" base (membersOf (.ofJson d)))).lookup "contracts" = some base := by
    intro base scripts
    rw [OrderedMap.lookup_put, if_neg (by decide), OrderedMap.lookup_put, if_pos rfl]
  unfold rebuiltValue
  dsimp only
  split
  · rw [follow_obj (hlookup _ _), lookup_entriesOf hid]; rfl
  · rw [follow_obj (by rw [OrderedMap.lookup_put, if_pos rfl]), lookup_entriesOf hid]; rfl

theorem follow_scripts {s : Schema} (hid : id ∈ s.scripts.all) :
    (rebuiltValue s d).follow ["scripts", TaskId.variableName id] =
      .ok (recordedEntry d (countingId s.scripts.all id)) := by
  unfold rebuiltValue
  dsimp only
  rw [if_pos (hasScripts_iff.2 (List.ne_nil_of_mem hid)),
    follow_obj (by rw [OrderedMap.lookup_put, if_pos rfl]), lookup_entriesOf hid]
  rfl

/-! ## Entries -/

theorem deployedEntry?_eq_some {entry : Value} (h : deployedEntry? n r d id = some entry) :
    ∃ result handle, entry = withHandle result handle := by
  unfold deployedEntry? at h
  obtain ⟨deployed, -, h⟩ := Option.bind_eq_some_iff.1 h
  obtain ⟨result, -, rfl⟩ := Option.map_eq_some_iff.1 h
  exact ⟨result, deployed.handle, rfl⟩

theorem exists_deployedEntry? (hd : r.IsReadFrom d) (hid : id ∈ r.contracts.map Prod.fst) :
    ∃ entry, deployedEntry? n r d id = some entry := by
  obtain ⟨e, he, rfl⟩ := List.mem_map.1 hid
  obtain ⟨deployed, hdeployed⟩ := Deployments.exists_contract?_ofRecord (n := n).2 ⟨e, he, rfl⟩
  obtain ⟨c, result, -, hresult, -⟩ := hd.fields.2.1.recorded hid
  exact ⟨withHandle result deployed.handle, by unfold deployedEntry?; rw [hdeployed, hresult]; rfl⟩

/-- What is made of a task with an object for its instance has the address that was recorded. -/
theorem ownEntry?_eq (hd : r.IsReadFrom d) (hid : id ∈ r.contracts.map Prod.fst)
    (hobj : HasInstanceObject d id) : ownEntry? r d id = some (rebuiltEntry d id) := by
  obtain ⟨c, result, hc, hresult, hread⟩ := hd.fields.2.1.recorded hid
  obtain ⟨result', members, hresult', hmembers⟩ := hobj
  cases hresult.symm.trans hresult'
  obtain ⟨info, hinfo, hinstance⟩ := ContractResult.instance_of_readObject hread
  cases hinfo.symm.trans hmembers
  have haddress : recordedAddress result = .str c.contractInstance.address := by
    unfold recordedAddress
    rw [hinfo, Option.bind_some]
    rcases InstanceInfo.address_of_read hinstance with ⟨-, -, haddress⟩ | ⟨items, hitems⟩
    · rw [haddress]; rfl
    · cases hitems
  unfold ownEntry? rebuiltEntry
  rw [hc, hresult, Option.bind_some, Option.map_some, Option.elim_some, haddress]
  rfl

/-- What is made of a task has an address only if its instance stands in an object. -/
theorem hasInstanceObject_of_rebuiltEntry (hd : r.IsReadFrom d) {result : Json}
    {handle : InstanceHandle} (h : rebuiltEntry d id = withHandle result handle) :
    HasInstanceObject d id := by
  by_cases hid : id ∈ r.contracts.map Prod.fst
  · obtain ⟨c, own, -, hown, hread⟩ := hd.fields.2.1.recorded hid
    obtain ⟨info, hinfo, hinstance⟩ := ContractResult.instance_of_readObject hread
    rcases InstanceInfo.address_of_read hinstance with ⟨members, rfl, -⟩ | ⟨items, rfl⟩
    · exact ⟨own, members, hown, hinfo⟩
    · have haddress : recordedAddress own = .undefined := by
        unfold recordedAddress; rw [hinfo]; rfl
      unfold rebuiltEntry withHandle withInstance at h
      rw [hown, Option.elim_some, haddress] at h
      have hlookup := congrArg (fun v => (membersOf v).lookup "contractInstance") h
      simp [membersOf, OrderedMap.lookup_put] at hlookup
  · have hnone := hd.fields.2.1.not_recorded hid
    unfold rebuiltEntry at h
    rw [hnone] at h
    cases h

/-! ## Main results -/

theorem mem_boundSchema_of_record (hr : r ∈ m.records) (hid : id ∈ r.contracts.map Prod.fst)
    (hbound : isBound contracts id = true) : id ∈ (boundSchema m contracts).contracts.all :=
  mem_boundSchema.2 ⟨mem_schema_contracts hr hid, hbound⟩

theorem mem_of_hasInstanceObject (hd : r.IsReadFrom d) (h : HasInstanceObject d id) :
    id ∈ r.contracts.map Prod.fst := by
  obtain ⟨result, members, hresult, -⟩ := h
  by_contra hnot
  rw [hd.fields.2.1.not_recorded hnot] at hresult; cases hresult

/-- A record whose document meets the conditions is rebuilt. -/
theorem CanRebuild.isRebuilt (hr : r ∈ m.records) (hd : r.IsReadFrom d)
    (h : CanRebuild m contracts n r d) :
    IsRebuilt m contracts n r d (rebuiltValue (boundSchema m contracts) d) where
  contract id hid hbound := by
    obtain ⟨entry, hentry⟩ := exists_deployedEntry? (n := n) hd hid
    have hobj := h.instances id hid hbound
    have hown := h.contract id hid hbound
    rw [ownEntry?_eq hd (mem_of_hasInstanceObject hd hobj) hobj, hentry] at hown
    refine ⟨entry, hentry, ?_⟩
    rw [follow_contracts (mem_boundSchema_of_record hr hid hbound), Option.some.inj hown]
  missing id hid hnot := by
    have hnone := hd.fields.2.1.not_recorded (h.missing id hid hnot)
    rw [follow_contracts (List.mem_append_right _ hid)]
    unfold rebuiltEntry
    rw [hnone]; rfl
  script id hid := by
    obtain ⟨c, result, -, hresult, -⟩ := hd.fields.2.2.recorded hid
    refine ⟨result, hresult, ?_⟩
    rw [follow_scripts (mem_boundSchema_scripts hr hid), h.script id hid]
    unfold recordedEntry
    rw [hresult]; rfl

/-- A record that is rebuilt meets the conditions. -/
theorem IsRebuilt.canRebuild (hr : r ∈ m.records) (hd : r.IsReadFrom d)
    (hm : HasMembers (boundSchema m contracts) d)
    (h : IsRebuilt m contracts n r d (rebuiltValue (boundSchema m contracts) d)) :
    CanRebuild m contracts n r d := by
  -- Of ids with one variable the last one counts, so entries are compared under that id.
  have hentry : ∀ id ∈ r.contracts.map Prod.fst, isBound contracts id = true →
      deployedEntry? n r d id =
        some (rebuiltEntry d (countingId (boundSchema m contracts).contracts.all id)) := by
    intro id hid hbound
    obtain ⟨entry, hentry, hfollow⟩ := h.contract id hid hbound
    rw [follow_contracts (mem_boundSchema_of_record hr hid hbound)] at hfollow
    cases hfollow
    exact hentry
  have hobj : ∀ id ∈ r.contracts.map Prod.fst, isBound contracts id = true →
      HasInstanceObject d (countingId (boundSchema m contracts).contracts.all id) := by
    intro id hid hbound
    obtain ⟨result, handle, hhandle⟩ := deployedEntry?_eq_some (hentry id hid hbound)
    exact hasInstanceObject_of_rebuiltEntry hd hhandle
  refine ⟨hm, hobj, fun id hid hbound => ?_, fun id hid hnot hin => ?_, fun id hid => ?_⟩
  · have hcounts := hobj id hid hbound
    rw [ownEntry?_eq hd (mem_of_hasInstanceObject hd hcounts) hcounts, hentry id hid hbound]
  · have hfollow := h.missing id hid hnot
    rw [follow_contracts (List.mem_append_right _ hid)] at hfollow
    obtain ⟨c, result, -, hresult, -⟩ := hd.fields.2.1.recorded hin
    unfold rebuiltEntry at hfollow
    rw [hresult] at hfollow
    cases hfollow
  · obtain ⟨result, hresult, hfollow⟩ := h.script id hid
    rw [follow_scripts (mem_boundSchema_scripts hr hid)] at hfollow
    rw [Except.ok.inj hfollow]
    unfold recordedEntry
    rw [hresult]; rfl

/-- No two tasks of a schema have one variable name. -/
def HasOwnVariables (s : Schema) : Prop :=
  Set.InjOn TaskId.variableName {id | id ∈ s.contracts.all} ∧
    Set.InjOn TaskId.variableName {id | id ∈ s.scripts.all}

/-- If every task has a variable name of its own, what a record needs are its members and objects
for its instances. -/
theorem canRebuild_iff (hr : r ∈ m.records) (hd : r.IsReadFrom d)
    (hown : HasOwnVariables m.schema) :
    CanRebuild m contracts n r d ↔
      HasMembers (boundSchema m contracts) d ∧ ∀ id ∈ r.contracts.map Prod.fst,
        isBound contracts id = true → HasInstanceObject d id := by
  have hinj : Set.InjOn TaskId.variableName
      {id | id ∈ (boundSchema m contracts).contracts.all} :=
    hown.1.mono fun id hid => (mem_boundSchema.1 hid).1
  -- With variables of its own each id is the one that counts.
  have hcounts : ∀ id ∈ (boundSchema m contracts).contracts.all,
      countingId (boundSchema m contracts).contracts.all id = id := fun id hid =>
    countingId_of_injOn hid hinj
  constructor
  · intro h
    refine ⟨h.toHasMembers, fun id hid hbound => ?_⟩
    rw [← hcounts id (mem_boundSchema_of_record hr hid hbound)]
    exact h.instances id hid hbound
  · rintro ⟨hm, hobj⟩
    refine ⟨hm, fun id hid hbound => ?_, fun id hid hbound => ?_, fun id hid hnot => ?_,
      fun id hid => ?_⟩
    · rw [hcounts id (mem_boundSchema_of_record hr hid hbound)]
      exact hobj id hid hbound
    · rw [hcounts id (mem_boundSchema_of_record hr hid hbound)]
      obtain ⟨c, result, hc, hresult, -⟩ := hd.fields.2.1.recorded hid
      have hdeployed := contract?_of_injOn (n := n) hd.fields.2.1.nodup
        (hown.1.mono fun id hid => mem_schema_contracts hr hid) hc
      unfold ownEntry? deployedEntry?
      rw [hc, hdeployed, hresult]; rfl
    · rw [hcounts id (List.mem_append_right _ hid)]
      exact hnot
    · have hcount : countingId (boundSchema m contracts).scripts.all id = id :=
        countingId_of_injOn (mem_boundSchema_scripts hr hid) hown.2
      rw [hcount]

/-- **Which records are rebuilt.** A run on a record's document reads a property of `undefined`
exactly if a member is missing that the schema looks tasks up in, and it gives what should be made
of the record exactly if `CanRebuild` holds. If every task has a variable name of its own, that means
that the members are there and that the instances stand in objects. -/
theorem rebuild_correct_iff (contracts : List String) (n : Network) (hr : r ∈ m.records)
    (hd : r.IsReadFrom d) :
    let run := (rebuild (boundSchema m contracts)).apply (rebuildHost contracts) [.ofJson d]
    ((∃ name, run = .error (.fault (.readOfUndefined name))) ↔
        ¬ HasMembers (boundSchema m contracts) d) ∧
      ((∃ v, run = .ok v ∧ IsRebuilt m contracts n r d v) ↔ CanRebuild m contracts n r d) ∧
      (HasOwnVariables m.schema →
        (CanRebuild m contracts n r d ↔
          HasMembers (boundSchema m contracts) d ∧ ∀ id ∈ r.contracts.map Prod.fst,
            isBound contracts id = true → HasInstanceObject d id)) := by
  intro run
  refine ⟨⟨?_, apply_rebuild_fault hr hd⟩, ⟨?_, ?_⟩, canRebuild_iff hr hd⟩
  · rintro ⟨name, hfault⟩ hm
    cases hfault.symm.trans (apply_rebuild hr hd hm)
  · rintro ⟨v, hv, hrebuilt⟩
    have hm : HasMembers (boundSchema m contracts) d := by
      by_contra hnot
      obtain ⟨name, hfault⟩ := apply_rebuild_fault hr hd hnot
      cases hv.symm.trans hfault
    cases hv.symm.trans (apply_rebuild hr hd hm)
    exact hrebuilt.canRebuild hr hd hm
  · intro h
    exact ⟨_, apply_rebuild hr hd h.toHasMembers, h.isRebuilt hr hd⟩

/-- The document of a deployer who has run a script, and of one who has not. -/
def scriptDocument : Json :=
  .obj [("deployerAddress", .str "X"), ("scripts", .obj [("Main", .obj [("txId", .str "s")])])]

def plainDocument : Json := .obj [("deployerAddress", .str "Y")]

def scriptRecord : DeployerRecord := ⟨"X", [], [("Main", ⟨"s", []⟩)], []⟩

def plainRecord : DeployerRecord := ⟨"Y", [], [], []⟩

def twoRecords : Manifests :=
  ⟨[⟨.testnet, ".deployments.testnet.json", [scriptRecord, plainRecord]⟩]⟩

/-- The document of a deployer who has deployed a contract twice, and another one that has no binding,
beside a script. -/
def coinDocument : Json :=
  .obj [("deployerAddress", .str "Z"),
    ("contracts", .obj
      [("Coin", .obj [("txId", .str "t"), ("contractInstance", .obj [("address", .str "a")])]),
        ("Vault", .obj [("contractInstance", .obj [("address", .str "b")])]),
        ("Coin:v2", .obj [("contractInstance", .obj [("address", .str "c")])])]),
    ("scripts", .obj [("Main", .obj [("txId", .str "s")])])]

def coinRecord : DeployerRecord :=
  ⟨"Z", [("Coin", ⟨"t", ⟨"a", none, none⟩, []⟩), ("Vault", ⟨"", ⟨"b", none, none⟩, []⟩),
    ("Coin:v2", ⟨"", ⟨"c", none, none⟩, []⟩)], [("Main", ⟨"s", []⟩)], []⟩

/-- The record with contracts, beside one without. -/
def coinRecords : Manifests :=
  ⟨[⟨.testnet, ".deployments.testnet.json", [coinRecord, plainRecord]⟩]⟩

theorem hasOwnVariables_coinRecords : HasOwnVariables coinRecords.schema := by
  have hcontracts : coinRecords.schema.contracts.all = ["Coin", "Vault", "Coin:v2"] := by
    decide +kernel
  have hscripts : coinRecords.schema.scripts.all = ["Main"] := by decide +kernel
  unfold HasOwnVariables
  rw [hcontracts, hscripts]
  constructor
  · have hnames : ∀ id ∈ ["Coin", "Vault", "Coin:v2"], ∀ id' ∈ ["Coin", "Vault", "Coin:v2"],
        TaskId.variableName id = TaskId.variableName id' → id = id' := by decide
    exact fun id hid id' hid' => hnames id hid id' hid'
  · intro id hid id' hid' _
    exact (List.mem_singleton.1 hid).trans (List.mem_singleton.1 hid').symm

theorem hasInstanceObject_coinDocument :
    ∀ id ∈ coinRecord.contracts.map Prod.fst, HasInstanceObject coinDocument id := by
  have hids : coinRecord.contracts.map Prod.fst = ["Coin", "Vault", "Coin:v2"] := rfl
  rw [hids]
  simp only [List.forall_mem_cons, List.not_mem_nil, false_imp_iff, implies_true, and_true]
  exact ⟨⟨_, _, rfl, rfl⟩, ⟨_, _, rfl, rfl⟩, ⟨_, _, rfl, rfl⟩⟩

/-- The conditions at a record without tasks, and a record with contracts that meets them. -/
theorem rebuild_correct_iff_two_records :
    (plainRecord ∈ twoRecords.records ∧ plainRecord.IsReadFrom plainDocument ∧
      let run := (rebuild (boundSchema twoRecords [])).apply (rebuildHost [])
        [.ofJson plainDocument]
      ((∃ name, run = .error (.fault (.readOfUndefined name))) ↔
          ¬ HasMembers (boundSchema twoRecords []) plainDocument) ∧
        ((∃ v, run = .ok v ∧ IsRebuilt twoRecords [] .testnet plainRecord plainDocument v) ↔
          CanRebuild twoRecords [] .testnet plainRecord plainDocument) ∧
        (HasOwnVariables twoRecords.schema →
          (CanRebuild twoRecords [] .testnet plainRecord plainDocument ↔
            HasMembers (boundSchema twoRecords []) plainDocument ∧
              ∀ id ∈ plainRecord.contracts.map Prod.fst,
                isBound [] id = true → HasInstanceObject plainDocument id))) ∧
      coinRecord ∈ coinRecords.records ∧ coinRecord.IsReadFrom coinDocument ∧
      HasOwnVariables coinRecords.schema ∧
      isBound ["Coin"] "Coin" = true ∧ isBound ["Coin"] "Coin:v2" = true ∧
      ∃ v, (rebuild (boundSchema coinRecords ["Coin"])).apply (rebuildHost ["Coin"])
          [.ofJson coinDocument] = .ok v ∧
        IsRebuilt coinRecords ["Coin"] .testnet coinRecord coinDocument v := by
  have hplain : plainRecord ∈ twoRecords.records := List.mem_cons_of_mem _ List.mem_cons_self
  have hplainRead : plainRecord.IsReadFrom plainDocument := rfl
  have hcoin : coinRecord ∈ coinRecords.records := List.mem_cons_self
  have hcoinRead : coinRecord.IsReadFrom coinDocument := rfl
  have hmembers : HasMembers (boundSchema coinRecords ["Coin"]) coinDocument :=
    ⟨fun _ => by decide +kernel, fun _ => by decide +kernel⟩
  obtain ⟨-, hrebuilt, hconditions⟩ := rebuild_correct_iff ["Coin"] .testnet hcoin hcoinRead
  refine ⟨⟨hplain, hplainRead, rebuild_correct_iff [] .testnet hplain hplainRead⟩, hcoin, hcoinRead,
    hasOwnVariables_coinRecords, by decide, by decide, hrebuilt.2 ?_⟩
  exact (hconditions hasOwnVariables_coinRecords).2
    ⟨hmembers, fun id hid _ => hasInstanceObject_coinDocument id hid⟩

/-- The record of a deployer who has run no script cannot be rebuilt if another one has. -/
theorem rebuild_reads_undefined :
    readRecords (.arr [scriptDocument, plainDocument]) = .ok [scriptRecord, plainRecord] ∧
      plainRecord ∈ twoRecords.records ∧ plainRecord.IsReadFrom plainDocument ∧
      (rebuild (boundSchema twoRecords [])).apply (rebuildHost []) [.ofJson plainDocument] =
        .error (.fault (.readOfUndefined "Main")) :=
  ⟨rfl, List.mem_cons_of_mem _ List.mem_cons_self, rfl, rfl⟩

end TypedBindings.Binding
