import TypedBindings.Deployment.Selection
import TypedBindings.Proofs.Deployment.Merging
import TypedBindings.Proofs.OrderedMap

/-!
# What is found under the variable name of a task

The tasks of a record are kept by their variable names, so tasks of one variable name share an entry,
and a task is looked up by its variable name as well.

* `OrderedMap.keys_ofList`: the keys of a map stand in the order of first occurrence.
* `IsKeptIn`: how the entries of a record are kept. The last one of a variable name counts, in the
  place of the first; nothing is lost exactly if every entry has a variable name of its own.
* `Manifests.load_keeps`: what is loaded keeps the contracts and the scripts of the selected record,
  and what is found of a task is the last contract of its variable name.
-/

namespace TypedBindings

namespace OrderedMap

variable {α : Type}

/-- A map has the keys in the order of their first entries. -/
theorem keys_ofList (entries : List (String × α)) :
    (ofList entries).map Prod.fst = distinct (entries.map Prod.fst) := by
  induction entries using List.reverseRecOn with
  | nil => rfl
  | append_singleton rest e ih =>
    obtain ⟨key, value⟩ := e
    rw [ofList_append, keys_put, ih, List.map_append, distinct_append]
    by_cases hk : key ∈ rest.map Prod.fst
    -- a key that is there keeps its place, a new one comes last
    · rw [if_pos (mem_distinct.2 hk), List.filter_eq_nil_iff.2, List.append_nil]
      intro a ha
      rw [List.mem_singleton.1 (mem_distinct.1 ha)]
      simpa using hk
    · rw [if_neg fun h => hk (mem_distinct.1 h), List.filter_eq_self.2]
      · rfl
      · intro a ha
        rw [List.mem_singleton.1 (mem_distinct.1 ha)]
        simpa using hk

end OrderedMap

/-- The last member of a list that has some property. -/
theorem getLast?_filter_eq_some_iff {α : Type} {xs : List α} {p : α → Bool} {x : α} :
    (xs.filter p).getLast? = some x ↔
      ∃ before after, xs = before ++ x :: after ∧ p x = true ∧ ∀ y ∈ after, p y = false := by
  -- the last is the first from behind
  rw [← List.head?_reverse, ← List.filter_reverse, List.head?_filter,
    List.find?_eq_some_iff_append]
  constructor
  · rintro ⟨hx, after, before, hxs, hafter⟩
    refine ⟨before.reverse, after.reverse, ?_, hx, fun y hy => by
      simpa using hafter y (List.mem_reverse.1 hy)⟩
    rw [← List.reverse_reverse xs, hxs]
    simp
  · rintro ⟨before, after, rfl, hx, hafter⟩
    exact ⟨hx, after.reverse, before.reverse, by simp, fun y hy => by
      simpa using hafter y (List.mem_reverse.1 hy)⟩

section

variable {α β : Type}

/-- The last entry of a record whose task has some variable name. -/
def IsLastUnder (name : String) (entries : List (String × α)) (e : String × α) : Prop :=
  ∃ before after, entries = before ++ e :: after ∧ TaskId.variableName e.1 = name ∧
    ∀ k ∈ after, TaskId.variableName k.1 ≠ name

/-- The variable names of the tasks of a record. -/
def variableNames (entries : List (String × α)) : List String :=
  entries.map fun e => TaskId.variableName e.1

/-- **How the entries of a record are kept** under the variable names of their tasks. -/
structure IsKeptIn (make : String → α → β) (entries : List (String × α))
    (kept : List (String × β)) : Prop where
  /-- The keys are the variable names, in the order in which they occur first. -/
  keys : kept.map Prod.fst = distinct (variableNames entries)
  /-- Under a variable name stands what is made of the last entry that has it. -/
  lookup : ∀ name b, kept.lookup name = some b ↔
    ∃ e, IsLastUnder name entries e ∧ b = make e.1 e.2
  /-- There are as many entries as before, in their order, exactly if no two have one variable
  name. -/
  whole : kept = entries.map (fun e => (TaskId.variableName e.1, make e.1 e.2)) ↔
    (variableNames entries).Nodup
  length : kept.length = entries.length ↔ (variableNames entries).Nodup

/-- The entries of a record by the variable names of their tasks. -/
def byVariable (make : String → α → β) (entries : List (String × α)) : List (String × β) :=
  OrderedMap.ofList (entries.map fun e => (TaskId.variableName e.1, make e.1 e.2))

theorem keys_byVariable (make : String → α → β) (entries : List (String × α)) :
    (byVariable make entries).map Prod.fst = distinct (variableNames entries) := by
  unfold byVariable
  rw [OrderedMap.keys_ofList, List.map_map]
  rfl

/-- The last entry whose id gives the variable is found. -/
theorem lookup_byVariable (make : String → α → β) (entries : List (String × α)) (name : String)
    (b : β) : (byVariable make entries).lookup name = some b ↔
      ∃ e, IsLastUnder name entries e ∧ b = make e.1 e.2 := by
  have hfilter : (entries.map fun e => (TaskId.variableName e.1, make e.1 e.2)).filter
      (fun e => decide (e.1 = name)) =
      (entries.filter fun e => TaskId.variableName e.1 = name).map fun e =>
        (TaskId.variableName e.1, make e.1 e.2) := List.filter_map
  unfold byVariable
  rw [OrderedMap.lookup_ofList, hfilter, List.getLast?_map, Option.map_map, Option.map_eq_some_iff]
  refine exists_congr fun e => and_congr ?_ eq_comm
  simp only [getLast?_filter_eq_some_iff, IsLastUnder, decide_eq_true_eq, decide_eq_false_iff_not]

/-- No entry is lost exactly if no two ids give one variable. -/
theorem length_byVariable (make : String → α → β) (entries : List (String × α)) :
    (byVariable make entries).length = entries.length ↔ (variableNames entries).Nodup := by
  have hlength : (byVariable make entries).length = (distinct (variableNames entries)).length := by
    rw [← keys_byVariable make, List.length_map]
  have hnames : (variableNames entries).length = entries.length := List.length_map ..
  rw [hlength, ← hnames]
  constructor
  · intro h
    rw [← (distinct_sublist _).eq_of_length h]
    exact nodup_distinct _
  · intro h; rw [distinct_of_nodup h]

theorem isKeptIn_byVariable (make : String → α → β) (entries : List (String × α)) :
    IsKeptIn make entries (byVariable make entries) where
  keys := keys_byVariable make entries
  lookup := lookup_byVariable make entries
  length := length_byVariable make entries
  whole := by
    constructor
    · intro h
      rw [← length_byVariable make, h, List.length_map]
    · intro h
      unfold byVariable
      refine OrderedMap.ofList_of_nodup ?_
      rw [List.map_map]
      exact h

end

variable {m : Manifests} {n : Network} {deployer : Option String}

/-- What is loaded is the record that is selected. -/
theorem Manifests.load_eq_ok {d : Deployments} (h : m.load n deployer = .ok d) :
    ∃ r, m.select n deployer = .ok r ∧ d = Deployments.ofRecord n r := by
  unfold Manifests.load at h
  cases hr : m.select n deployer with
  | error fault => rw [hr] at h; cases h
  | ok r => rw [hr] at h; cases h; exact ⟨r, rfl, rfl⟩

/-- A deployed contract is that of a task with some result: an instance of the class of the task's
contract, at the address of the result. -/
structure DeployedContract.IsOf (c : DeployedContract) (id : String)
    (recorded : ContractResult) : Prop where
  taskId : c.taskId = id
  result : c.result = recorded
  className : c.handle.className = Binding.instanceName (TaskId.typeName id)
  address : c.handle.address = recorded.contractInstance.address

/-- A deployed contract is determined by its record. -/
theorem DeployedContract.isOf_iff {c : DeployedContract} {id : String}
    {recorded : ContractResult} : c.IsOf id recorded ↔ c = .ofResult id recorded := by
  constructor
  · rintro ⟨htask, hresult, hclass, haddress⟩
    obtain ⟨task, ⟨className, address⟩, result⟩ := c
    dsimp only at htask hresult hclass haddress
    rw [DeployedContract.ofResult, htask, hresult, hclass, haddress]
  · rintro rfl; exact ⟨rfl, rfl, rfl, rfl⟩

/-- A contract is looked up by the variable of its id. -/
theorem Deployments.contract?_ofRecord {r : DeployerRecord} {t : String} {c : DeployedContract} :
    (ofRecord n r).contract? t = some c ↔
      ∃ e, IsLastUnder (TaskId.variableName t) r.contracts e ∧ c.IsOf e.1 e.2 := by
  simp only [DeployedContract.isOf_iff]
  exact lookup_byVariable DeployedContract.ofResult r.contracts _ c

theorem Deployments.exists_contract?_ofRecord {r : DeployerRecord} {t : String} :
    (∃ c, (ofRecord n r).contract? t = some c) ↔
      ∃ e ∈ r.contracts, TaskId.variableName e.1 = TaskId.variableName t := by
  constructor
  · rintro ⟨c, hc⟩
    obtain ⟨e, ⟨before, after, hcontracts, hname, -⟩, -⟩ := contract?_ofRecord.1 hc
    exact ⟨e, by rw [hcontracts]; simp, hname⟩
  · rintro ⟨e, he, hname⟩
    obtain ⟨last, -, -, hlast⟩ := exists_getLast?_filter
      (p := fun k => TaskId.variableName k.1 = TaskId.variableName t) he (by simpa using hname)
    obtain ⟨before, after, hcontracts, hp, hafter⟩ := getLast?_filter_eq_some_iff.1 hlast
    exact ⟨_, contract?_ofRecord.2 ⟨last, ⟨before, after, hcontracts, of_decide_eq_true hp,
      fun k hk => of_decide_eq_false (hafter k hk)⟩, DeployedContract.isOf_iff.2 rfl⟩⟩

/-- An entry whose variable name no other entry has is the last one that has it. -/
theorem IsLastUnder.of_nodup {α : Type} {entries : List (String × α)} {e : String × α}
    (h : (variableNames entries).Nodup) (he : e ∈ entries) :
    IsLastUnder (TaskId.variableName e.1) entries e := by
  obtain ⟨before, after, rfl⟩ := List.append_of_mem he
  refine ⟨before, after, rfl, rfl, fun k hk heq => ?_⟩
  unfold variableNames at h
  rw [List.map_append, List.map_cons, List.nodup_append, List.nodup_cons] at h
  exact h.2.1.1 (heq ▸ List.mem_map_of_mem hk)

/-- **What is loaded keeps the tasks of the selected record by their variable names.** A task is found
if some contract of the record has its variable name, and what is found is the last of these, with
its own id, class, address and result. If no two contracts have one variable name, each is found as
its own. Contracts and scripts are kept as `IsKeptIn` says. -/
theorem Manifests.load_keeps {d : Deployments} (h : m.load n deployer = .ok d) :
    ∃ r, m.select n deployer = .ok r ∧
      (∀ t c, d.contract? t = some c ↔
        ∃ e, IsLastUnder (TaskId.variableName t) r.contracts e ∧ c.IsOf e.1 e.2) ∧
      (∀ t, (∃ c, d.contract? t = some c) ↔
        ∃ e ∈ r.contracts, TaskId.variableName e.1 = TaskId.variableName t) ∧
      ((variableNames r.contracts).Nodup →
        ∀ e ∈ r.contracts, ∃ c, d.contract? e.1 = some c ∧ c.IsOf e.1 e.2) ∧
      IsKeptIn DeployedContract.ofResult r.contracts d.contracts ∧
      IsKeptIn (fun _ result => result) r.scripts d.scripts := by
  obtain ⟨r, hr, rfl⟩ := load_eq_ok h
  refine ⟨r, hr, fun t c => Deployments.contract?_ofRecord,
    fun t => Deployments.exists_contract?_ofRecord, fun hnodup e he => ?_,
    isKeptIn_byVariable _ _, isKeptIn_byVariable _ _⟩
  have hown := DeployedContract.isOf_iff.2 (rfl : DeployedContract.ofResult e.1 e.2 = _)
  exact ⟨_, Deployments.contract?_ofRecord.2 ⟨e, .of_nodup hnodup he, hown⟩, hown⟩

/-- A deployer whose two tasks differ in their separators only. -/
def twinTasksRecord : DeployerRecord :=
  ⟨"X", [("Coin:a", ⟨"c", ⟨"first", none, none⟩, []⟩), ("Coin-a", ⟨"d", ⟨"second", none, none⟩, []⟩)],
    [], []⟩

/-- Two tasks whose ids give one variable. -/
def twinTasks : Manifests := ⟨[⟨.testnet, ".deployments.testnet.json", [twinTasksRecord]⟩]⟩

theorem Manifests.load_keeps_twin_tasks :
    ∃ d, twinTasks.load .testnet none = .ok d ∧
      ∃ r, twinTasks.select .testnet none = .ok r ∧
        (∀ t c, d.contract? t = some c ↔
          ∃ e, IsLastUnder (TaskId.variableName t) r.contracts e ∧ c.IsOf e.1 e.2) ∧
        (∀ t, (∃ c, d.contract? t = some c) ↔
          ∃ e ∈ r.contracts, TaskId.variableName e.1 = TaskId.variableName t) ∧
        ((variableNames r.contracts).Nodup →
          ∀ e ∈ r.contracts, ∃ c, d.contract? e.1 = some c ∧ c.IsOf e.1 e.2) ∧
        IsKeptIn DeployedContract.ofResult r.contracts d.contracts ∧
        IsKeptIn (fun _ result => result) r.scripts d.scripts :=
  ⟨_, rfl, load_keeps rfl⟩

/-- Of two tasks with one variable name only the last is kept, and both are found as that one; a text
that is no task of the record finds it as well. -/
theorem twin_tasks_share_an_entry :
    ∃ d, twinTasks.select .testnet none = .ok twinTasksRecord ∧
      twinTasks.load .testnet none = .ok d ∧
      twinTasksRecord.contracts.map Prod.fst = ["Coin:a", "Coin-a"] ∧
      (d.contract? "Coin:a").map (fun c => (c.taskId, c.handle)) =
        some ("Coin-a", ⟨"Coin-aInstance", "second"⟩) ∧
      (d.contract? "Coin_a").map DeployedContract.taskId = some "Coin-a" ∧
      d.contracts.map Prod.fst = ["Coin_a"] :=
  ⟨_, rfl, rfl, rfl, by decide +kernel, by decide +kernel, by decide +kernel⟩

end TypedBindings
