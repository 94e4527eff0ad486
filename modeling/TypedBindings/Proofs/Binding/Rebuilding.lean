import TypedBindings.Binding.Deployments
import TypedBindings.Proofs.Deployment.Manifest
import TypedBindings.Proofs.Deployment.Merging
import TypedBindings.Proofs.TypeScript.Evaluation

/-!
# What the generated rebuilding does

`rebuild` is made for the tasks of all records and runs on the document of one of them.

* `rebuildHost`: what the names in `rebuild` mean: an imported class makes an instance at an address.
* `rebuiltEntry`: what is made of one contract's task.
* `apply_rebuild`: what a run gives. It breaks off only where the document lacks a member that tasks
  are looked up in.
* `apply_rebuild_fault`: there it reads a property of `undefined`.
-/

namespace TypedBindings.Binding

open TypeScript

/-- What the names in `rebuild` mean: a contract with a binding has a class, which makes an instance
at an address. -/
def rebuildHost (contracts : List String) : Host where
  method? className name :=
    if contracts.contains className && name == "at" then
      some fun args => .ok (.handle (instanceName className) (args.headD .undefined))
    else none

/-- The members of a value that is an object. -/
def membersOf : Value → List (String × Value)
  | .obj members => members
  | _ => []

/-- A recorded result whose instance is replaced. -/
def withInstance (result : Json) (className : String) (address : Value) : Value :=
  .obj (OrderedMap.put "contractInstance" (.handle className address) (membersOf (.ofJson result)))

/-- The address that a recorded result names. -/
def recordedAddress (result : Json) : Value :=
  .ofMember ((result.field? "contractInstance").bind (·.field? "address"))

/-- What is made of a contract's task. -/
def rebuiltEntry (d : Json) (id : String) : Value :=
  (recordedResult? d "contracts" id).elim .undefined fun result =>
    withInstance result (instanceName (TaskId.typeName id)) (recordedAddress result)

/-- What is made of a script's task. -/
def recordedEntry (d : Json) (id : String) : Value := .ofMember (recordedResult? d "scripts" id)

/-- Entries by the variable names of their tasks. -/
def entriesOf (ids : List String) (entry : String → Value) : List (String × Value) :=
  OrderedMap.ofList (ids.map fun id => (TaskId.variableName id, entry id))

/-- What is made of a document. -/
def rebuiltValue (s : Schema) (d : Json) : Value :=
  let base := OrderedMap.put "contracts" (.obj (entriesOf s.contracts.all (rebuiltEntry d)))
    (membersOf (.ofJson d))
  .obj (if s.hasScripts then
    OrderedMap.put "scripts" (.obj (entriesOf s.scripts.all (recordedEntry d))) base else base)

/-- The members of a document that tasks are looked up in are there. -/
structure HasMembers (s : Schema) (d : Json) : Prop where
  contracts_there : s.contracts.all ≠ [] → d.field? "contracts" ≠ none
  scripts_there : s.scripts.all ≠ [] → d.field? "scripts" ≠ none

variable {h : Host} {s : Scope} {d : Json} {r : DeployerRecord} {id : String}

/-! ## Reading a recorded result -/

theorem get_ofJson (hd : r.IsReadFrom d) (name : String) :
    (Value.ofJson d).get name = .ok (.ofMember (d.field? name)) := by
  obtain ⟨members, rfl⟩ := Json.readObject_obj hd
  exact Value.get_ofJson_obj members name

/-- A look into a member that is not there. -/
theorem eval_recorded_missing {path name : String} (hp : namesOfPath path = ["json", name])
    (hs : s.lookup "json" = some (.ofJson d)) (hd : r.IsReadFrom d) (hn : d.field? name = none) :
    (Expr.index (.ident path) (.str id)).eval h s = .error (.fault (.readOfUndefined id)) := by
  rw [Expr.eval, Expr.eval, Expr.eval, Host.read_member hp hs, get_ofJson hd, hn]; rfl

theorem eval_recorded {path name : String} {α : Type} {item : Json.Reader α}
    {results : List (String × α)} (hp : namesOfPath path = ["json", name])
    (hs : s.lookup "json" = some (.ofJson d)) (hd : r.IsReadFrom d)
    (hmap : IsMapOf item name d results) (hthere : d.field? name ≠ none) :
    (Expr.index (.ident path) (.str id)).eval h s = .ok (.ofMember (recordedResult? d name id)) := by
  rcases hmap with ⟨hnone, -⟩ | ⟨entries, hn, -⟩
  · exact absurd hnone hthere
  · have hr : recordedResult? d name id = (Json.obj entries).field? id := by
      unfold recordedResult?; rw [hn]; rfl
    rw [Expr.eval, Expr.eval, Expr.eval, Host.read_member hp hs, get_ofJson hd, hn, hr]
    exact Value.get_ofJson_obj entries id

theorem eval_recordedContract (hs : s.lookup "json" = some (.ofJson d)) (hd : r.IsReadFrom d)
    (hthere : d.field? "contracts" ≠ none) :
    (recordedContract id).eval h s = .ok (.ofMember (recordedResult? d "contracts" id)) :=
  eval_recorded (by decide) hs hd hd.fields.2.1 hthere

theorem eval_recordedScript (hs : s.lookup "json" = some (.ofJson d)) (hd : r.IsReadFrom d)
    (hthere : d.field? "scripts" ≠ none) :
    (recordedScript id).eval h s = .ok (recordedEntry d id) :=
  eval_recorded (by decide) hs hd hd.fields.2.2 hthere

/-! ## One task -/

theorem spread_ofJson (members : List (String × Json)) :
    (Value.ofJson (.obj members)).spread [] = .ok (membersOf (.ofJson (.obj members))) := by
  have hkeys : ((Value.ofMembers [] members).map Prod.fst).Nodup :=
    Value.nodup_keys_ofMembers List.nodup_nil
  have hown := OrderedMap.ofList_of_nodup hkeys
  rw [Value.ofJson, Value.spread, membersOf]
  exact congrArg Except.ok hown

/-- The address of an instance is its member of that name, and `undefined` in array form. -/
theorem get_address {v : Json} {c : ContractResult}
    (hc : ContractResult.record.readObject v = .ok c) :
    ∃ info, (Value.ofJson v).get "contractInstance" = .ok (.ofJson info) ∧
      (Value.ofJson info).get "address" = .ok (recordedAddress v) := by
  obtain ⟨info, hinfo, hread⟩ := ContractResult.instance_of_readObject hc
  obtain ⟨members, rfl⟩ := Json.readObject_obj hc
  refine ⟨info, by rw [Value.get_ofJson_obj, hinfo]; rfl, ?_⟩
  unfold recordedAddress
  rw [hinfo, Option.bind_some]
  rcases InstanceInfo.address_of_read hread with ⟨fields, rfl, -⟩ | ⟨items, rfl⟩
  · exact Value.get_ofJson_obj fields "address"
  · rw [Value.ofJson]; rfl

theorem eval_instance {contracts : List String} {e : Expr} {v : Json} {c : ContractResult}
    (hbound : isBound contracts id = true) (he : e.eval (rebuildHost contracts) s = .ok (.ofJson v))
    (hc : ContractResult.record.readObject v = .ok c) :
    (Expr.callMethod (.ident (TaskId.typeName id)) "at"
        [.member (.member e "contractInstance") "address"]).eval (rebuildHost contracts) s =
      .ok (.handle (instanceName (TaskId.typeName id)) (recordedAddress v)) := by
  obtain ⟨info, hinfo, haddress⟩ := get_address hc
  have hmethod : (rebuildHost contracts).method? (TaskId.typeName id) "at" =
      some fun args =>
        .ok (.handle (instanceName (TaskId.typeName id)) (args.headD .undefined)) := by
    have hcontains : contracts.contains (TaskId.typeName id) = true := hbound
    unfold rebuildHost
    simp only [hcontains, beq_self_eq_true, Bool.and_self, if_true]
  have harg : (Expr.member (.member e "contractInstance") "address").eval (rebuildHost contracts) s =
      .ok (recordedAddress v) := by
    rw [Expr.eval, Expr.eval, he]
    change ((Value.ofJson v).get "contractInstance" >>= _) = _
    rw [hinfo]
    exact haddress
  unfold Expr.callMethod
  rw [Expr.eval, hmethod]
  dsimp only
  rw [evalArgs, harg, evalArgs]
  · rfl
  · simp

/-- A recorded result is copied, and its instance replaced. -/
theorem eval_rebuiltContract {contracts : List String} {v : Json} {c : ContractResult}
    (hbound : isBound contracts id = true)
    (he : (recordedContract id).eval (rebuildHost contracts) s = .ok (.ofJson v))
    (hc : ContractResult.record.readObject v = .ok c) :
    (rebuiltContract id).eval (rebuildHost contracts) s =
      .ok (withInstance v (instanceName (TaskId.typeName id)) (recordedAddress v)) := by
  have hinstance := eval_instance hbound he hc
  obtain ⟨members, rfl⟩ := Json.readObject_obj hc
  have hcopied : ∀ rest, evalEntries (rebuildHost contracts) (.spread (recordedContract id) :: rest)
      s [] = evalEntries (rebuildHost contracts) rest s (membersOf (.ofJson (.obj members))) := by
    intro rest
    rw [evalEntries, he]
    change (Value.ofJson (.obj members)).spread [] >>= _ = _
    rw [spread_ofJson]; rfl
  unfold rebuiltContract
  rw [Expr.eval, hcopied, evalEntries, hinstance]
  rfl

/-! ## The tasks of a schema -/

variable {m : Manifests} {contracts : List String}

theorem mem_boundSchema :
    id ∈ (boundSchema m contracts).contracts.all ↔
      id ∈ m.schema.contracts.all ∧ isBound contracts id = true := by
  show id ∈ m.schema.contracts.required.filter _ ++ m.schema.contracts.optional.filter _ ↔
    id ∈ m.schema.contracts.required ++ m.schema.contracts.optional ∧ _
  simp only [List.mem_append, List.mem_filter]
  tauto

theorem hasScripts_iff {s : Schema} : s.hasScripts = true ↔ s.scripts.all ≠ [] := by
  unfold Schema.hasScripts MergedIds.isEmpty MergedIds.all
  simp only [Bool.not_eq_true', Bool.and_eq_false_iff, List.isEmpty_eq_false_iff, ne_eq,
    List.append_eq_nil_iff, not_and_or]

theorem mem_contracts_of_required (hr : r ∈ m.records)
    (hid : id ∈ (boundSchema m contracts).contracts.required) : id ∈ r.contracts.map Prod.fst := by
  have hreq : id ∈ m.schema.contracts.required := List.mem_of_mem_filter hid
  exact (MergedIds.mem_required.1 hreq).2 _ (List.mem_map_of_mem hr)

theorem mem_schema_contracts (hr : r ∈ m.records) (hid : id ∈ r.contracts.map Prod.fst) :
    id ∈ m.schema.contracts.all := MergedIds.mem_all.2 ⟨_, List.mem_map_of_mem hr, hid⟩

theorem mem_boundSchema_scripts (hr : r ∈ m.records) (hid : id ∈ r.scripts.map Prod.fst) :
    id ∈ (boundSchema m contracts).scripts.all := MergedIds.mem_all.2 ⟨_, List.mem_map_of_mem hr, hid⟩

/-! ## Fields -/

theorem eval_recorded_present (hd : r.IsReadFrom d) (hs : s.lookup "json" = some (.ofJson d))
    (hthere : d.field? "contracts" ≠ none)
    (hbound : isBound contracts id = true) (hid : id ∈ r.contracts.map Prod.fst) :
    (rebuiltContract id).eval (rebuildHost contracts) s = .ok (rebuiltEntry d id) := by
  obtain ⟨c, v, -, hv, hc⟩ := hd.fields.2.1.recorded hid
  have he : (recordedContract id).eval (rebuildHost contracts) s = _ :=
    eval_recordedContract hs hd hthere
  rw [hv] at he
  unfold rebuiltEntry
  rw [hv]
  exact eval_rebuiltContract hbound he hc

/-- The field of a required task. Every record has the task, so it is recorded. -/
theorem eval_required (hr : r ∈ m.records) (hd : r.IsReadFrom d)
    (hs : s.lookup "json" = some (.ofJson d)) (hthere : d.field? "contracts" ≠ none)
    (hid : id ∈ (boundSchema m contracts).contracts.required) :
    (rebuiltContract id).eval (rebuildHost contracts) s = .ok (rebuiltEntry d id) :=
  eval_recorded_present hd hs hthere (mem_boundSchema.1 (List.mem_append_left _ hid)).2
    (mem_contracts_of_required hr hid)

/-- The field of an optional task, which is `undefined` if the record lacks the task. -/
theorem eval_optional (hd : r.IsReadFrom d) (hs : s.lookup "json" = some (.ofJson d))
    (hthere : d.field? "contracts" ≠ none)
    (hid : id ∈ (boundSchema m contracts).contracts.optional) :
    (rebuiltIfPresent id).eval (rebuildHost contracts) s = .ok (rebuiltEntry d id) := by
  have hbound := (mem_boundSchema.1 (List.mem_append_right _ hid)).2
  have hrecorded : (recordedContract id).eval (rebuildHost contracts) s = _ :=
    eval_recordedContract hs hd hthere
  have htest := eval_isUndefined hrecorded
  unfold rebuiltIfPresent
  by_cases hin : id ∈ r.contracts.map Prod.fst
  · obtain ⟨c, v, -, hv, hc⟩ := hd.fields.2.1.recorded hin
    obtain ⟨members, rfl⟩ := Json.readObject_obj hc
    rw [hv] at htest
    rw [eval_cond htest]
    exact eval_recorded_present hd hs hthere hbound hin
  · have hnone := hd.fields.2.1.not_recorded hin
    rw [hnone] at htest
    unfold rebuiltEntry
    rw [eval_cond htest, hnone]
    rfl

theorem eval_rebuiltContracts (hr : r ∈ m.records) (hd : r.IsReadFrom d)
    (hs : s.lookup "json" = some (.ofJson d))
    (hthere : (boundSchema m contracts).contracts.all ≠ [] → d.field? "contracts" ≠ none) :
    (rebuiltContracts (boundSchema m contracts).contracts).eval (rebuildHost contracts) s =
      .ok (.obj (entriesOf (boundSchema m contracts).contracts.all (rebuiltEntry d))) := by
  generalize hids : (boundSchema m contracts).contracts = ids at hthere
  have hrequired : ∀ id ∈ ids.required,
      (rebuiltContract id).eval (rebuildHost contracts) s = .ok (rebuiltEntry d id) :=
    fun id hid => eval_required hr hd hs
      (hthere (List.ne_nil_of_mem (List.mem_append_left _ hid))) (hids ▸ hid)
  have hoptional : ∀ id ∈ ids.optional,
      (rebuiltIfPresent id).eval (rebuildHost contracts) s = .ok (rebuiltEntry d id) :=
    fun id hid => eval_optional hd hs
      (hthere (List.ne_nil_of_mem (List.mem_append_right _ hid))) (hids ▸ hid)
  have hentries : evalEntries (rebuildHost contracts)
      (ids.required.map (fun id => .field (TaskId.variableName id) (rebuiltContract id)) ++
        ids.optional.map fun id => .field (TaskId.variableName id) (rebuiltIfPresent id)) s [] =
      .ok (entriesOf ids.all (rebuiltEntry d)) := by
    rw [evalEntries_append, evalEntries_fields hrequired]
    refine (evalEntries_fields hoptional _).trans ?_
    unfold entriesOf OrderedMap.ofList MergedIds.all
    rw [List.foldl_map, List.foldl_append]
  unfold rebuiltContracts Expr.record
  rw [Expr.eval, List.map_append, List.map_map, List.map_map]
  exact congrArg (Except.map Value.obj) hentries

theorem eval_rebuiltScripts {ids : MergedIds} (hd : r.IsReadFrom d)
    (hs : s.lookup "json" = some (.ofJson d)) (hthere : ids.all ≠ [] → d.field? "scripts" ≠ none) :
    (rebuiltScripts ids).eval h s = .ok (.obj (entriesOf ids.all (recordedEntry d))) := by
  have hscripts : ∀ id ∈ ids.all, (recordedScript id).eval h s = .ok (recordedEntry d id) :=
    fun id hid => eval_recordedScript hs hd (hthere (List.ne_nil_of_mem hid))
  have hentries : evalEntries h (ids.all.map fun id =>
      .field (TaskId.variableName id) (recordedScript id)) s [] =
      .ok (entriesOf ids.all (recordedEntry d)) := by
    rw [evalEntries_fields hscripts]
    unfold entriesOf OrderedMap.ofList
    rw [List.foldl_map]
  unfold rebuiltScripts Expr.record
  rw [Expr.eval, List.map_map]
  exact congrArg (Except.map Value.obj) hentries

/-! ## The run -/

theorem evalEntries_json {rest : List (TypeScript.Entry Expr)} (hs : s.lookup "json" = some (.ofJson d))
    (hd : r.IsReadFrom d) :
    evalEntries h (.spread (.ident "json") :: rest) s [] =
      evalEntries h rest s (membersOf (.ofJson d)) := by
  obtain ⟨members, rfl⟩ := Json.readObject_obj hd
  rw [evalEntries, Expr.eval, Host.read_local (by decide) hs]
  change (Value.ofJson (.obj members)).spread [] >>= _ = _
  rw [spread_ofJson]; rfl

/-- What is left of the run when the contracts are rebuilt. -/
theorem apply_of_contracts (hr : r ∈ m.records) (hd : r.IsReadFrom d)
    (hthere : (boundSchema m contracts).contracts.all ≠ [] → d.field? "contracts" ≠ none) :
    ∃ scope, scope.lookup "json" = some (.ofJson d) ∧
      (rebuild (boundSchema m contracts)).apply (rebuildHost contracts) [.ofJson d] =
        (evalEntries (rebuildHost contracts)
          (if (boundSchema m contracts).hasScripts then
            [.field "scripts" (rebuiltScripts (boundSchema m contracts).scripts)] else []) scope
          (OrderedMap.put "contracts"
            (.obj (entriesOf (boundSchema m contracts).contracts.all (rebuiltEntry d)))
            (membersOf (.ofJson d)))).map .obj := by
  let entries := Value.obj (entriesOf (boundSchema m contracts).contracts.all (rebuiltEntry d))
  let scope : Scope := [("contracts", entries), ("json", .ofJson d)]
  have hlocal : (rebuildHost contracts).read scope "contracts" = .ok entries :=
    Host.read_local (by decide) rfl
  -- The document is copied first, so the rebuilt contracts take the place of its own.
  have hcopied : ∀ type rest, evalEntries (rebuildHost contracts)
      (.spread (.ident "json") :: .field "contracts" (.cast (.ident "contracts") type) :: rest)
        scope [] =
      evalEntries (rebuildHost contracts) rest scope
        (OrderedMap.put "contracts" entries (membersOf (.ofJson d))) := by
    intro type rest
    rw [evalEntries_json rfl hd, evalEntries, Expr.eval, Expr.eval, hlocal]; rfl
  refine ⟨scope, rfl, FunctionDecl.apply_eq ?_⟩
  refine (runAll_declare (eval_rebuiltContracts hr hd rfl hthere)).trans ?_
  rw [runAll_ret, Expr.eval]
  change ((evalEntries _ (.spread _ :: .field _ (.cast _ _) :: _) scope [] >>= _ : Eval Value)).map
    Completion.returned = _
  rw [hcopied]
  rfl

/-- **A run on a document with the members** gives the document with its tasks rebuilt. -/
theorem apply_rebuild (hr : r ∈ m.records) (hd : r.IsReadFrom d)
    (hm : HasMembers (boundSchema m contracts) d) :
    (rebuild (boundSchema m contracts)).apply (rebuildHost contracts) [.ofJson d] =
      .ok (rebuiltValue (boundSchema m contracts) d) := by
  obtain ⟨scope, hs, hrun⟩ := apply_of_contracts hr hd hm.contracts_there
  rw [hrun]
  unfold rebuiltValue
  by_cases hscripts : (boundSchema m contracts).hasScripts = true
  · simp only [hscripts, if_true]
    rw [evalEntries, eval_rebuiltScripts hd hs hm.scripts_there]; rfl
  · simp only [hscripts]; rfl

/-- No field of a contract can be evaluated if there is nothing to look tasks up in. -/
theorem eval_rebuiltContracts_fault {ids : MergedIds} (hd : r.IsReadFrom d)
    (hs : s.lookup "json" = some (.ofJson d)) (hall : ids.all ≠ [])
    (hnone : d.field? "contracts" = none) :
    ∃ name, (rebuiltContracts ids).eval h s = .error (.fault (.readOfUndefined name)) := by
  have hlook : ∀ id, (recordedContract id).eval h s = .error (.fault (.readOfUndefined id)) :=
    fun id => eval_recorded_missing (by decide) hs hd hnone
  refine eval_record_fault (fun hnil => hall ?_) (fun f hf => ?_)
  · obtain ⟨hrequired, hoptional⟩ := List.append_eq_nil_iff.1 hnil
    unfold MergedIds.all
    rw [List.map_eq_nil_iff.1 hrequired, List.map_eq_nil_iff.1 hoptional]; rfl
  · rcases List.mem_append.1 hf with hf | hf <;> obtain ⟨id, -, rfl⟩ := List.mem_map.1 hf
    · refine ⟨id, ?_⟩
      dsimp only [rebuiltContract]
      rw [Expr.eval, evalEntries, hlook]; rfl
    · refine ⟨id, ?_⟩
      have htest : (Expr.isUndefined (recordedContract id)).eval h s =
          .error (.fault (.readOfUndefined id)) := by
        unfold Expr.isUndefined
        rw [Expr.eval, hlook]; rfl
      dsimp only [rebuiltIfPresent]
      rw [Expr.eval, htest]; rfl

theorem eval_rebuiltScripts_fault {ids : MergedIds} (hd : r.IsReadFrom d)
    (hs : s.lookup "json" = some (.ofJson d)) (hall : ids.all ≠ [])
    (hnone : d.field? "scripts" = none) :
    ∃ name, (rebuiltScripts ids).eval h s = .error (.fault (.readOfUndefined name)) := by
  refine eval_record_fault (fun hnil => hall (List.map_eq_nil_iff.1 hnil)) (fun f hf => ?_)
  obtain ⟨id, -, rfl⟩ := List.mem_map.1 hf
  exact ⟨id, eval_recorded_missing (by decide) hs hd hnone⟩

/-- **A run on a document without them** reads a property of `undefined`. -/
theorem apply_rebuild_fault (hr : r ∈ m.records) (hd : r.IsReadFrom d)
    (hm : ¬ HasMembers (boundSchema m contracts) d) :
    ∃ name, (rebuild (boundSchema m contracts)).apply (rebuildHost contracts) [.ofJson d] =
      .error (.fault (.readOfUndefined name)) := by
  by_cases hmissing : (boundSchema m contracts).contracts.all ≠ [] ∧ d.field? "contracts" = none
  · obtain ⟨name, he⟩ := eval_rebuiltContracts_fault (h := rebuildHost contracts)
      (s := [("json", .ofJson d)]) hd rfl hmissing.1 hmissing.2
    exact ⟨name, FunctionDecl.apply_eq (runAll_declare_error he)⟩
  · have hthere : (boundSchema m contracts).contracts.all ≠ [] → d.field? "contracts" ≠ none :=
      fun hall hnone => hmissing ⟨hall, hnone⟩
    have hscripts : (boundSchema m contracts).scripts.all ≠ [] ∧ d.field? "scripts" = none := by
      by_contra hnot
      exact hm ⟨hthere, fun hall hnone => hnot ⟨hall, hnone⟩⟩
    have hhas := hasScripts_iff.2 hscripts.1
    obtain ⟨scope, hs, hrun⟩ := apply_of_contracts hr hd hthere
    obtain ⟨name, he⟩ := eval_rebuiltScripts_fault (h := rebuildHost contracts) hd hs hscripts.1
      hscripts.2
    refine ⟨name, ?_⟩
    rw [hrun, if_pos hhas, evalEntries, he]; rfl

end TypedBindings.Binding
