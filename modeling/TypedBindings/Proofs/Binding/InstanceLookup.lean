import TypedBindings.Binding.Shared
import TypedBindings.Proofs.Binding.Rebuilding

/-!
# The generated lookup of an instance agrees with `Deployments.contract?`

`instanceLookup` is a function of the generated sources that looks for a contract's instance in the
deployments of several deployers. It names tasks as this library does.

* `Holds`: the values that hold deployments, among them `Deployments.value`.
* `chosen?`, `meant?`: whose deployments are looked into, and which entry of them is meant.
* `replace_separators`: replacing colons and hyphens gives the variable name of a task.
* `instanceLookup_agrees`: the lookup gives the instance of the entry that is meant, and `undefined`
  where there is none.
-/

namespace TypedBindings.Binding

open TypeScript

/-! ## What the lookup is about -/

/-- What the names in `instanceLookup` mean, given the groups of addresses. -/
def lookupHost (groupOf : String → Int) : Host where
  imported name := if name = "/[:\\-]/g" then some (.regex "[:\\-]" "g") else none
  call path args :=
    match path, args with
    | "groupOfAddress", [.str address] => .ok (.num (groupOf address))
    | _, _ => .error (.fault (.unbound path))

/-- The instance of a deployed contract. -/
def instanceValue (i : InstanceHandle) : Value := .handle i.className (.str i.address)

/-- A group that may be missing. -/
def groupValue (group : Option Int) : Value := (group.map .num).getD .undefined

/-- A task's id that may be missing. -/
def taskValue (task : Option String) : Value := (task.map .str).getD .undefined

/-- **The values that hold deployments**: the address of the deployer, and under the name of every
entry, and under no other, something that has the entry's instance. -/
structure Holds (v : Value) (d : Deployments) : Prop where
  deployerAddress : v.get "deployerAddress" = .ok (.str d.deployerAddress)
  contracts : ∃ members, v.get "contracts" = .ok (.obj members) ∧
    ∀ name, (d.contracts.lookup name).elim ((members.lookup name).getD .undefined = .undefined)
      fun c => ∃ result, members.lookup name = some result ∧
        result.get "contractInstance" = .ok (instanceValue c.handle)

/-- The deployments that are looked into: those of the first deployer in the group, or the first ones
if no group is given. -/
def chosen? (groupOf : String → Int) (ds : List Deployments) : Option Int → Option Deployments
  | none => ds.head?
  | some group => ds.find? fun d => groupOf d.deployerAddress = group

/-- The entry that is meant: that of the task, or the one under the contract's own name if no task is
given. -/
def meant? (contract : String) (task : Option String) (d : Deployments) : Option DeployedContract :=
  match task with
  | some id => d.contract? id
  | none => d.contracts.lookup contract

/-- A call of the lookup. -/
def lookedUp (groupOf : String → Int) (deployments : List Value) (contract : String)
    (group : Option Int) (task : Option String) : Eval Value :=
  instanceLookup.apply (lookupHost groupOf)
    [.arr deployments, .str contract, groupValue group, taskValue task]

variable {groupOf : String → Int} {s : Scope} {ds : List Deployments} {vs : List Value}
  {contract : String} {group : Option Int} {task : Option String}

/-! ## Values that hold deployments -/

/-- The plain value of deployments, with an instance in the place of each recorded one. -/
def deploymentsValue (d : Deployments) : Value :=
  .obj [("deployerAddress", .str d.deployerAddress),
    ("contracts", .obj (d.contracts.map fun (name, c) =>
      (name, withInstance c.result.toJson c.handle.className (.str c.handle.address))))]

theorem holds_deploymentsValue (d : Deployments) : Holds (deploymentsValue d) d where
  deployerAddress := rfl
  contracts := by
    refine ⟨_, rfl, fun name => ?_⟩
    rw [OrderedMap.lookup_map fun c : DeployedContract =>
      withInstance c.result.toJson c.handle.className (.str c.handle.address)]
    cases d.contracts.lookup name with
    | none => rfl
    | some c =>
      refine ⟨_, rfl, ?_⟩
      unfold withInstance
      rw [Value.get, OrderedMap.lookup_put, if_pos rfl]
      rfl

theorem Holds.isUndefined {v : Value} {d : Deployments} (h : Holds v d) : v.isUndefined = false := by
  cases v with
  | undefined => nomatch h.deployerAddress
  | _ => rfl

/-! ## Names of tasks -/

/-- **Replacing colons and hyphens** gives the variable name of a task. -/
theorem replace_separators (id : String) :
    Value.replace "[:\\-]" "g" "_" id = .ok (.str (TaskId.variableName id)) := by
  have hclass : Value.classOf? "[:\\-]" = some [':', '-'] := by decide
  have hchars : Value.replaceEach [':', '-'] "_" id = TaskId.variableName id := by
    unfold Value.replaceEach TaskId.variableName
    rw [List.map_eq_flatMap]
    congr 2
    funext c
    by_cases hc : c = ':' ∨ c = '-'
    · simp [hc]
    · simp [hc]
  unfold Value.replace
  rw [hclass]
  dsimp only
  rw [if_pos (by decide), hchars]

/-! ## The run -/

/-- The local variables of the lookup when it is called. -/
def lookupScope (deployments : List Value) (contract : String) (group : Option Int)
    (task : Option String) : Scope :=
  [("allDeployments", .arr deployments), ("contractName", .str contract),
    ("group", groupValue group), ("taskId", taskValue task)]

theorem eval_name {h : Host} {name : String} {v : Value} (hp : namesOfPath name = [name])
    (hv : s.lookup name = some v) : (Expr.ident name).eval h s = .ok v := by
  rw [Expr.eval, Host.read_local hp hv]

/-- The test whether a deployer is in a group. -/
theorem eval_inGroup {v : Value} {d : Deployments} {g : Int} (hd : Holds v d)
    (hs : s.lookup "group" = some (.num g)) :
    (Expr.binary (.callNamed "groupOfAddress" [.ident "d.deployerAddress"]) .strictEq
        (.ident "group")).eval (lookupHost groupOf) (("d", v) :: s) =
      .ok (.bool (decide (groupOf d.deployerAddress = g))) := by
  have haddress : (Expr.ident "d.deployerAddress").eval (lookupHost groupOf) (("d", v) :: s) =
      .ok (.str d.deployerAddress) := by
    have hp : namesOfPath "d.deployerAddress" = ["d", "deployerAddress"] := by decide
    rw [Expr.eval, Host.read_member hp rfl, hd.deployerAddress]
  have hgroup : (Expr.ident "group").eval (lookupHost groupOf) (("d", v) :: s) = .ok (.num g) :=
    eval_name (by decide) hs
  have hcall : (Expr.callNamed "groupOfAddress" [.ident "d.deployerAddress"]).eval
      (lookupHost groupOf) (("d", v) :: s) = .ok (.num (groupOf d.deployerAddress)) :=
    eval_callNamed haddress (by simp)
  rw [Expr.eval, hcall, hgroup]
  rfl

/-- **The choice of deployments** gives a value that holds the chosen ones. -/
theorem eval_selectedDeployments (hvs : List.Forall₂ (fun d v => Holds v d) ds vs) :
    ∃ found, selectedDeployments.eval (lookupHost groupOf) (lookupScope vs contract group task) =
        .ok found ∧
      (chosen? groupOf ds group).elim (found = .undefined) (Holds found) := by
  have htest : (Expr.isUndefined (.ident "group")).eval (lookupHost groupOf)
      (lookupScope vs contract group task) = .ok (.bool (groupValue group).isUndefined) :=
    eval_isUndefined (eval_name (by decide) rfl)
  unfold selectedDeployments
  rw [eval_cond htest]
  cases group with
  | none =>
    have hfirst : (Expr.index (.ident "allDeployments") (.num 0)).eval (lookupHost groupOf)
        (lookupScope vs contract none task) = .ok (vs[0]?.getD .undefined) := by
      rw [Expr.eval, eval_name (by decide) rfl]
      rfl
    refine ⟨_, hfirst, ?_⟩
    cases hvs with
    | nil => rfl
    | cons hd _ => exact hd
  | some g =>
    have hread : (lookupHost groupOf).read (lookupScope vs contract (some g) task)
        "allDeployments" = .ok (.arr vs) := Host.read_local (by decide) rfl
    -- The group of each deployer is computed by the library, so the test is a comparison of
    -- numbers.
    have htests : ∀ d v, Holds v d →
        (Expr.binary (.callNamed "groupOfAddress" [.ident "d.deployerAddress"]) .strictEq
          (.ident "group")).eval (lookupHost groupOf)
          (("d", v) :: lookupScope vs contract (some g) task) =
          .ok (.bool (decide (groupOf d.deployerAddress = g))) :=
      fun d v hd => eval_inGroup hd rfl
    obtain ⟨found, hfind, hfound⟩ := Value.find_spec hvs htests
    have hargs : evalArgs (lookupHost groupOf)
        [.arrow { params := [{ name := "d" }] }
          (.binary (.callNamed "groupOfAddress" [.ident "d.deployerAddress"]) .strictEq
            (.ident "group"))] (lookupScope vs contract (some g) task) = .ok [.function _] := rfl
    exact ⟨found, (eval_callMethod rfl hread hargs).trans hfind, hfound⟩

/-- What stands under a key in deployments. -/
theorem eval_entry {key : Expr} {name : String} {v : Value} {d : Deployments} (hd : Holds v d)
    (hs : s.lookup "deployments" = some v) (hkey : key.eval (lookupHost groupOf) s = .ok (.str name)) :
    ∃ entry, (Expr.index (.ident "deployments.contracts") key).eval (lookupHost groupOf) s =
        .ok entry ∧
      (d.contracts.lookup name).elim (entry = .undefined) fun c =>
        entry.get "contractInstance" = .ok (instanceValue c.handle) := by
  obtain ⟨members, hmembers, hall⟩ := hd.contracts
  have hentry := hall name
  refine ⟨(members.lookup name).getD .undefined, ?_, ?_⟩
  · have hp : namesOfPath "deployments.contracts" = ["deployments", "contracts"] := by decide
    rw [Expr.eval, Expr.eval, Host.read_member hp hs, hmembers, hkey]
    rfl
  · cases hlookup : d.contracts.lookup name with
    | none =>
      rw [hlookup] at hentry
      exact hentry
    | some c =>
      rw [hlookup] at hentry
      obtain ⟨result, hresult, hinstance⟩ := hentry
      rw [hresult]
      exact hinstance

/-- **The choice of an entry** in deployments. -/
theorem eval_selectedResult {v : Value} {d : Deployments} (hd : Holds v d) :
    ∃ entry, selectedResult.eval (lookupHost groupOf)
        (("deployments", v) :: lookupScope vs contract group task) = .ok entry ∧
      (meant? contract task d).elim (entry = .undefined) fun c =>
        entry.get "contractInstance" = .ok (instanceValue c.handle) := by
  have htest : (Expr.isUndefined (.ident "taskId")).eval (lookupHost groupOf)
      (("deployments", v) :: lookupScope vs contract group task) =
      .ok (.bool (taskValue task).isUndefined) :=
    eval_isUndefined (eval_name (by decide) rfl)
  unfold selectedResult
  rw [eval_cond htest]
  cases task with
  | none => exact eval_entry hd rfl (eval_name (by decide) rfl)
  | some id =>
    have hread : (lookupHost groupOf).read
        (("deployments", v) :: lookupScope vs contract group (some id)) "taskId" =
        .ok (.str id) := Host.read_local (by decide) rfl
    have hpattern : (lookupHost groupOf).read
        (("deployments", v) :: lookupScope vs contract group (some id)) "/[:\\-]/g" =
        .ok (.regex "[:\\-]" "g") := by rfl
    have hargs : evalArgs (lookupHost groupOf) [.ident "/[:\\-]/g", .str "_"]
        (("deployments", v) :: lookupScope vs contract group (some id)) =
        .ok [.value (.regex "[:\\-]" "g"), .value (.str "_")] := by
      rw [evalArgs, Expr.eval, hpattern]
      · rfl
      · simp
    exact eval_entry hd rfl ((eval_callMethod rfl hread hargs).trans (replace_separators id))

theorem runAll_returnIfUndefined {h : Host} {name : String} {v : Value} {rest : List Stmt}
    (hp : namesOfPath name = [name]) (hv : s.lookup name = some v) :
    runAll h (returnIfUndefined name :: rest) s =
      if v.isUndefined then .ok (.returned .undefined) else runAll h rest s := by
  have htest := eval_isUndefined (eval_name (h := h) hp hv)
  cases hundefined : v.isUndefined with
  | true =>
    rw [hundefined] at htest
    have hret : runAll h [.ret .undefined] s = (Except.ok .undefined : Eval Value).map .returned :=
      runAll_ret
    exact runAll_branch_true htest hret
  | false =>
    rw [hundefined] at htest
    exact runAll_branch_false htest

/-- **In the chosen deployments** the rest of the run gives the instance of the entry that is meant. -/
theorem runAll_chosen {v : Value} {d : Deployments} (hd : Holds v d) :
    runAll (lookupHost groupOf) (instanceLookup.body.drop 2)
      (("deployments", v) :: lookupScope vs contract group task) =
      .ok (.returned ((meant? contract task d).elim .undefined fun c => instanceValue c.handle)) := by
  obtain ⟨entry, hentry, hmeant⟩ : ∃ entry, selectedResult.eval (lookupHost groupOf)
      (("deployments", v) :: lookupScope vs contract group task) = .ok entry ∧ _ :=
    eval_selectedResult hd
  refine (runAll_declare hentry).trans ((runAll_returnIfUndefined (by decide) rfl).trans ?_)
  cases hc : meant? contract task d with
  | none =>
    rw [hc] at hmeant
    rw [hmeant]
    rfl
  | some c =>
    rw [hc, Option.elim_some] at hmeant
    have hthere : entry.isUndefined = false := by
      cases entry with
      | undefined => nomatch hmeant
      | _ => rfl
    have hp : namesOfPath "result.contractInstance" = ["result", "contractInstance"] := by decide
    rw [hthere]
    refine runAll_ret.trans ?_
    rw [Expr.eval, Expr.eval, Host.read_member hp rfl, hmeant]
    rfl

/-- **The lookup gives the instance of the entry that is meant**, in the deployments that are
chosen. -/
theorem lookedUp_eq (hvs : List.Forall₂ (fun d v => Holds v d) ds vs) :
    lookedUp groupOf vs contract group task =
      .ok (((chosen? groupOf ds group).bind (meant? contract task)).elim .undefined
        fun c => instanceValue c.handle) := by
  obtain ⟨v, hv, hchosen⟩ : ∃ v, selectedDeployments.eval (lookupHost groupOf)
      (lookupScope vs contract group task) = .ok v ∧ _ := eval_selectedDeployments hvs
  refine FunctionDecl.apply_eq ?_
  refine (runAll_declare hv).trans ((runAll_returnIfUndefined (by decide) rfl).trans ?_)
  cases hd : chosen? groupOf ds group with
  | none =>
    rw [hd] at hchosen
    rw [hchosen]
    rfl
  | some d =>
    rw [hd, Option.elim_some] at hchosen
    rw [hchosen.isUndefined, Option.bind_some]
    exact runAll_chosen hchosen

/-! ## Agreement -/

theorem chosen?_eq_none_iff : chosen? groupOf ds group = none ↔
    ds = [] ∨ ∃ g, group = some g ∧ ∀ d ∈ ds, groupOf d.deployerAddress ≠ g := by
  cases group with
  | none => simp [chosen?]
  | some g =>
    have hfind : chosen? groupOf ds (some g) = none ↔ ∀ d ∈ ds, groupOf d.deployerAddress ≠ g := by
      simp [chosen?]
    rw [hfind]
    constructor
    · intro h; exact Or.inr ⟨g, rfl, h⟩
    · rintro (rfl | ⟨_, ⟨⟩, h⟩)
      · exact List.forall_mem_nil _
      · exact h

/-- **The generated lookup agrees with `Deployments.contract?`.** It gives `undefined` exactly if there
are no deployments, no deployer is in the group that is asked for, or the chosen deployments lack the
entry that is meant: that of the task, or without one that under the contract's own name. Where there
is an entry it gives the instance of that entry. -/
theorem instanceLookup_agrees (hvs : List.Forall₂ (fun d v => Holds v d) ds vs) :
    (lookedUp groupOf vs contract group task = .ok .undefined ↔
      ds = [] ∨ (∃ g, group = some g ∧ ∀ d ∈ ds, groupOf d.deployerAddress ≠ g) ∨
        ∃ d, chosen? groupOf ds group = some d ∧ meant? contract task d = none) ∧
      ∀ d c, chosen? groupOf ds group = some d → meant? contract task d = some c →
        lookedUp groupOf vs contract group task = .ok (instanceValue c.handle) := by
  rw [lookedUp_eq hvs, ← or_assoc, ← chosen?_eq_none_iff]
  cases hd : chosen? groupOf ds group with
  | none => exact ⟨iff_of_true rfl (Or.inl rfl), nofun⟩
  | some d =>
    cases hc : meant? contract task d with
    | none =>
      refine ⟨iff_of_true (by rw [Option.bind_some, hc]; rfl) (Or.inr ⟨d, rfl, hc⟩), ?_⟩
      rintro _ c ⟨⟩ hsome
      rw [hc] at hsome
      cases hsome
    | some c =>
      refine ⟨iff_of_false (by rw [Option.bind_some, hc]; nofun) ?_, ?_⟩
      · rintro (hnone | ⟨_, ⟨⟩, hnone⟩)
        · cases hnone
        · rw [hc] at hnone
          cases hnone
      · rintro _ _ ⟨⟩ hsome
        rw [Option.bind_some, hsome]
        rfl

/-- The result of a task of `Coin`. -/
def coinResult : ContractResult := ⟨"t", ⟨"there", none, none⟩, []⟩

/-- A deployer without any contract, and one with a task of `Coin`. -/
def coinDeployments : List Deployments :=
  [.ofRecord .testnet ⟨"X", [], [], []⟩,
    .ofRecord .testnet ⟨"Y", [("Coin:a-b", coinResult)], [], []⟩]

theorem instanceLookup_agrees_coin :
    List.Forall₂ (fun d v => Holds v d) coinDeployments (coinDeployments.map deploymentsValue) ∧
      lookedUp (fun address => if address = "Y" then 2 else 0)
        (coinDeployments.map deploymentsValue) "Coin" (some 2) (some "Coin:a-b") =
        .ok (.handle "CoinInstance" (.str "there")) ∧
      lookedUp (fun address => if address = "Y" then 2 else 0)
        (coinDeployments.map deploymentsValue) "Coin" none none = .ok .undefined := by
  have hvs : List.Forall₂ (fun d v => Holds v d) coinDeployments
      (coinDeployments.map deploymentsValue) :=
    List.forall₂_map_right_iff.2 (List.forall₂_same.2 fun d _ => holds_deploymentsValue d)
  have hmeant : meant? "Coin" (some "Coin:a-b")
      (.ofRecord .testnet ⟨"Y", [("Coin:a-b", coinResult)], [], []⟩) =
      some (.ofResult "Coin:a-b" coinResult) := by rfl
  have hclass : Binding.instanceName (TaskId.typeName "Coin:a-b") = "CoinInstance" := by decide
  refine ⟨hvs, ?_, ?_⟩
  · rw [← hclass]
    exact (instanceLookup_agrees hvs).2 _ _ rfl hmeant
  · exact (instanceLookup_agrees hvs).1.2 (Or.inr (Or.inr ⟨_, rfl, rfl⟩))

end TypedBindings.Binding
