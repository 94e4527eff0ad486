import TypedBindings.Binding.Deployments
import TypedBindings.Proofs.Deployment.Directory
import TypedBindings.Proofs.TypeScript.Evaluation

/-!
# The generated selection agrees with `Manifests.load`

`selection` is a function of the generated sources, `Manifests.load` a function of this library. Both
choose one deployer's record on a network.

* `selectionHost`: what the names in `selection` mean: each imported manifest is the document in its
  network's file.
* `eval_selectedManifest`: the conditional over the imports gives the manifest of the network.
* `find_deployer`: the search among documents finds the document of the record that a search among
  records finds.
* `aroundNetwork_eq`: the parts of a message around the network's name, from which the generated
  source puts the message together again.
* `selection_agrees`: `selection` rebuilds the document of the record that `load` chooses, and throws
  the message of the fault that `load` ends with.
-/

namespace TypedBindings.Binding

open TypeScript

/-- What the names in `selection` mean, given what rebuilding a record does. -/
def selectionHost (t : FileTree) (dir : String) (rebuild : Value → Eval Value) : Host where
  imported path :=
    (Network.all.find? fun n => n.id ++ "Deployments" = path).bind fun n =>
      (t.manifestDocument? dir n).map .ofJson
  call path args :=
    if path = "toDeployments" then rebuild (args.headD .undefined)
    else .error (.fault (.unbound path))

/-- A deployer's address that may be missing. -/
def deployerValue (deployer : Option String) : Value := (deployer.map .str).getD .undefined

/-- Whether a record is one that a deployer's address asks for. -/
def isMeant (deployer : Option String) (r : DeployerRecord) : Bool :=
  deployer.all fun address => r.deployerAddress = address

/-- **Agreement of a run of `selection` with `load`.** The run rebuilds the document of the record
that is chosen, which is the first one that the deployer's address asks for, or it throws an error
with the message of the fault. -/
def SelectsAs (t : FileTree) (dir : String) (m : Manifests) (n : Network) (deployer : Option String)
    (rebuild : Value → Eval Value) (run : Eval Value) : Prop :=
  match m.load n deployer with
  | .ok chosen =>
    ∃ v i d r, t.manifestDocument? dir n = some v ∧
      (m.recordsOf n).findIdx? (isMeant deployer) = some i ∧ (m.recordsOf n)[i]? = some r ∧
      (recordDocuments v)[i]? = some d ∧ r.IsReadFrom d ∧ chosen = .ofRecord n r ∧
      run = rebuild (.ofJson d)
  | .error fault => run = .error (.thrown (.error (.str fault.message)))

variable {h : Host} {s : Scope}

theorem namesOfPath_binding (i : ManifestImport) : namesOfPath i.binding = [i.binding] := by
  have hnames : ∀ n : Network, namesOfPath (n.id ++ "Deployments") = [n.id ++ "Deployments"] := by
    intro n; cases n <;> decide
  exact hnames i.network

/-- **The conditional over the imports** gives the manifest of the wanted network, and `undefined`
if it is not imported. -/
theorem eval_selectedManifest {imports : List ManifestImport} {n : Network} {w : Network → Value}
    (hn : h.read s "networkId" = .ok (.str n.id))
    (hw : ∀ i ∈ imports, h.read s i.binding = .ok (w i.network)) :
    (selectedManifest imports).eval h s =
      .ok (if n ∈ imports.map ManifestImport.network then w n else .undefined) := by
  induction imports with
  | nil => rfl
  | cons i rest ih =>
    have ih := ih fun k hk => hw k (List.mem_cons_of_mem _ hk)
    have htest : (Expr.binary (.ident "networkId") .strictEq (.str i.network.id)).eval h s =
        .ok (.bool (decide (n = i.network))) := by
      have hsame : (n.id == i.network.id) = decide (n = i.network) := by
        by_cases e : n = i.network
        · simp [e]
        · have hid : n.id ≠ i.network.id := fun he => e (Network.id_injective he)
          simp [e, hid]
      rw [Expr.eval, Expr.eval, hn, Expr.eval, ← hsame]; rfl
    have hstep : (selectedManifest (i :: rest)).eval h s =
        if decide (n = i.network) then h.read s i.binding else (selectedManifest rest).eval h s := by
      rw [← Expr.eval, ← eval_cond htest]; rfl
    rw [hstep, ih, hw i List.mem_cons_self]
    by_cases e : n = i.network
    · simp [e]
    · simp [e]

/-! ## The records of a manifest -/

theorem get_deployerAddress {r : DeployerRecord} {d : Json} (hr : r.IsReadFrom d) :
    (Value.ofJson d).get "deployerAddress" = .ok (.str r.deployerAddress) := by
  obtain ⟨members, rfl⟩ := Json.readObject_obj hr
  rw [Value.get_ofJson_obj, hr.fields.1]; rfl

theorem isUndefined_of_isReadFrom {r : DeployerRecord} {d : Json} (hr : r.IsReadFrom d) :
    (Value.ofJson d).isUndefined = false := by
  obtain ⟨members, rfl⟩ := Json.readObject_obj hr
  rfl

theorem isUndefined_of_documents {doc : Json} {records : List DeployerRecord}
    (hread : AreReadFrom (recordDocuments doc) records) : (Value.ofJson doc).isUndefined = false := by
  by_cases hdoc : ∃ items, doc = .arr items
  · obtain ⟨items, rfl⟩ := hdoc
    rfl
  · have hdocs : recordDocuments doc = [doc] := by
      cases doc with
      | arr items => exact absurd ⟨items, rfl⟩ hdoc
      | _ => rfl
    rw [hdocs] at hread
    obtain ⟨r, _, hr, -, -⟩ := List.forall₂_cons_left_iff.1 hread
    exact isUndefined_of_isReadFrom hr

/-- **Searching documents is searching records.** The first document whose deployer has an address
is that of the first such record. -/
theorem find_deployer {docs : List Json} {records : List DeployerRecord}
    (hread : AreReadFrom docs records) {test : Value → Eval Value} {address : String}
    (htest : ∀ d r, DeployerRecord.IsReadFrom r d →
      test (.ofJson d) = .ok (.bool (decide (r.deployerAddress = address)))) :
    Value.find test (docs.map .ofJson) =
      .ok (((records.findIdx? (isMeant (some address))).bind (docs[·]?)).elim .undefined
        .ofJson) := by
  induction hread with
  | nil => rfl
  | @cons d r docs records hr _ ih =>
    rw [List.map_cons, Value.find, htest d r hr, List.findIdx?_cons]
    by_cases e : r.deployerAddress = address
    · simp [e, isMeant, Value.truth]; rfl
    · have hnot : isMeant (some address) r = false := by simp [isMeant, e]
      simp only [hnot, e, decide_false]
      change Value.find test (docs.map .ofJson) = _
      rw [ih]
      cases records.findIdx? (isMeant (some address)) <;> simp

/-! ## Throwing

The generated source puts a network's name between the two parts of a fault's message. The parts are
cut out of the message for a marker in place of the name. -/

/-- **What is around the network's name** in a message that has it behind a text without the
character that begins the marker. -/
theorem aroundNetwork_eq {fault : String → LoadFault} {head tail : String}
    (hmessage : ∀ network, (fault network).message = head ++ network ++ tail)
    (hhead : '<' ∉ head.toList) : aroundNetwork fault = (head, tail) := by
  have hmarker : networkMarker.toList = '<' :: "network>".toList := rfl
  have hcut : Text.splitOnce networkMarker.toList (fault networkMarker).message.toList =
      some (head.toList, tail.toList) := by
    rw [hmessage, String.toList_append, String.toList_append, hmarker]
    exact Text.splitOnce_append hhead _ _
  simp only [aroundNetwork, hcut, String.ofList_toList]

/-- The parts of the message of a network without deployments. Behind the name stands nothing, so
the source may drop that part. -/
theorem aroundNetwork_notDeployed :
    aroundNetwork .notDeployed = ("The contract has not been deployed to the ", "") :=
  aroundNetwork_eq (fun network => (String.append_empty (s := _ ++ network)).symm) (by decide)

/-- The parts of the message of a network with several deployers. -/
theorem aroundNetwork_ambiguousDeployer :
    aroundNetwork .ambiguousDeployer =
      ("The contract has been deployed multiple times on ",
        ", please specify the deployer address") :=
  aroundNetwork_eq (fun _ => rfl) (by decide)

/-- **The message of a network without deployments** is its first part and the network's name. -/
theorem message_notDeployed (network : String) :
    (LoadFault.notDeployed network).message = (aroundNetwork .notDeployed).1 ++ network := by
  rw [aroundNetwork_notDeployed]; rfl

/-- **The message of a network with several deployers** is the network's name between its parts. -/
theorem message_ambiguousDeployer (network : String) :
    (LoadFault.ambiguousDeployer network).message =
      (aroundNetwork .ambiguousDeployer).1 ++ network ++
        (aroundNetwork .ambiguousDeployer).2 := by
  rw [aroundNetwork_ambiguousDeployer]; rfl

theorem runAll_raiseError {message : Expr} {v : Value} (hv : message.eval h s = .ok v)
    (hf : ∀ head body, message ≠ .arrow head body) :
    runAll h [raiseError message] s = (Except.error (.thrown (.error v)) : Eval Value).map .returned :=
  runAll_throw (eval_error hv hf)

theorem runAll_throwNotDeployed {n : Network} (hn : h.read s "networkId" = .ok (.str n.id)) :
    runAll h [throwNotDeployed] s =
      (Except.error (.thrown (.error (.str (LoadFault.notDeployed n.id).message))) :
        Eval Value).map .returned := by
  refine runAll_raiseError ?_ (by simp)
  rw [Expr.eval, Expr.eval, Expr.eval, hn, message_notDeployed]; rfl

theorem runAll_throwAmbiguous {n : Network} (hn : h.read s "networkId" = .ok (.str n.id)) :
    runAll h [throwAmbiguous] s =
      (Except.error (.thrown (.error (.str (LoadFault.ambiguousDeployer n.id).message))) :
        Eval Value).map .returned := by
  refine runAll_raiseError ?_ (by simp)
  rw [Expr.eval, Expr.eval, Expr.eval, Expr.eval, Expr.eval, hn, message_ambiguousDeployer]; rfl

/-- The message of a record that is not found does not depend on what was looked for. -/
theorem runAll_throwNotFound {n : Network} {address : String} :
    runAll h [throwNotFound] s =
      (Except.error (.thrown (.error (.str (LoadFault.notFound n.id address).message))) :
        Eval Value).map .returned :=
  runAll_raiseError (by rw [Expr.eval]; rfl) (by simp)

/-! ## The run -/

variable {n : Network} {deployer : Option String} {docs : List Json} {v : Value}

/-- The local variables of `selection` once all manifests of the network are in a list. -/
def listedScope (n : Network) (deployer : Option String) (v : Value) (docs : List Json) : Scope :=
  [("allDeployments", .arr (docs.map .ofJson)), ("deployments", v), ("networkId", .str n.id),
    ("deployerAddress", deployerValue deployer)]

theorem read_listed {name : String} {w : Value} (hp : namesOfPath name = [name])
    (hw : (listedScope n deployer v docs).lookup name = some w) :
    h.read (listedScope n deployer v docs) name = .ok w := Host.read_local hp hw

theorem eval_count (op : Operator) (k : Int) :
    (Expr.binary (.ident "allDeployments.length") op (.num k)).eval h
      (listedScope n deployer v docs) = Value.operate op (.num docs.length) (.num k) := by
  have hp : namesOfPath "allDeployments.length" = ["allDeployments", "length"] := by decide
  have hread : h.read (listedScope n deployer v docs) "allDeployments.length" =
      .ok (.num docs.length) := by
    rw [Host.read_member hp rfl]; simp [Value.get]
  rw [Expr.eval, Expr.eval, Expr.eval, hread]; rfl

/-- The list of the manifests of a network: a manifest that is no list stands alone in one. -/
theorem eval_listed {doc : Json} (hd : h.read s "deployments" = .ok (.ofJson doc)) :
    (Expr.cond (.callNamed "Array.isArray" [.ident "deployments"]) (.ident "deployments")
        (.array [.ident "deployments"])).eval h s =
      .ok (.arr ((recordDocuments doc).map .ofJson)) := by
  have hident : (Expr.ident "deployments").eval h s = .ok (.ofJson doc) := by rw [Expr.eval, hd]
  have htest : (Expr.callNamed "Array.isArray" [.ident "deployments"]).eval h s =
      h.invoke "Array.isArray" [.value (.ofJson doc)] := eval_callNamed hident (by simp)
  by_cases hv : ∃ items, doc = .arr items
  · obtain ⟨items, rfl⟩ := hv
    rw [eval_cond (htest.trans rfl), hident, Value.ofJson, Value.ofItems_eq_map]; rfl
  · have hnot : h.invoke "Array.isArray" [.value (.ofJson doc)] = .ok (.bool false) := by
      cases doc with
      | arr items => exact absurd ⟨items, rfl⟩ hv
      | _ => rfl
    have hdocs : recordDocuments doc = [doc] := by
      cases doc with
      | arr items => exact absurd ⟨items, rfl⟩ hv
      | _ => rfl
    rw [eval_cond (htest.trans hnot), hdocs, if_neg (by simp), Expr.eval, evalArgs, evalArgs, hident]
    · rfl
    · simp

variable {imports : List ManifestImport} {rebuild : Value → Eval Value}
  {records : List DeployerRecord}

theorem eval_rebuilt (hcall : ∀ x, h.invoke "toDeployments" [.value x] = rebuild x) {e : Expr}
    {x : Value} (he : e.eval h s = .ok x) (hf : ∀ head body, e ≠ .arrow head body) :
    (rebuilt e).eval h s = rebuild x := by
  unfold rebuilt
  rw [eval_callNamed he hf, hcall]

/-- A network whose manifest is empty. -/
theorem runAll_empty :
    runAll h ((selection imports).body.drop 3) (listedScope n deployer v []) =
      (Except.error (.thrown (.error (.str (LoadFault.notDeployed n.id).message))) :
        Eval Value).map .returned :=
  runAll_branch_true (eval_count .strictEq 0) (runAll_throwNotDeployed (read_listed (by decide) rfl))

theorem eval_noneListed {d : Json} :
    (Expr.binary (.ident "allDeployments.length") .strictEq (.num 0)).eval h
      (listedScope n deployer v (d :: docs)) = .ok (.bool false) := by
  have hcount : (((d :: docs).length : Int) == 0) = false := by
    simp only [List.length_cons, beq_eq_false_iff_ne]; omega
  rw [eval_count]
  show (Except.ok (Value.bool (((d :: docs).length : Int) == 0)) : Eval Value) = _
  rw [hcount]

theorem eval_deployerMissing :
    (Expr.isUndefined (.ident "deployerAddress")).eval h (listedScope n deployer v docs) =
      .ok (.bool (deployerValue deployer).isUndefined) := by
  refine eval_isUndefined ?_
  rw [Expr.eval, read_listed (by decide) rfl]

/-- Without a deployer's address there must be one record. -/
theorem runAll_sole {d : Json} (hcall : ∀ x, h.invoke "toDeployments" [.value x] = rebuild x) :
    runAll h ((selection imports).body.drop 3) (listedScope n none v (d :: docs)) =
      (if docs = [] then rebuild (.ofJson d)
        else .error (.thrown (.error (.str (LoadFault.ambiguousDeployer n.id).message))) :
        Eval Value).map .returned := by
  refine (runAll_branch_false eval_noneListed).trans (runAll_branch_true eval_deployerMissing ?_)
  -- The body compares a length with a number, which says whether there is a second record.
  have hmany : (Expr.binary (.ident "allDeployments.length") .greater (.num 1)).eval h
      (listedScope n none v (d :: docs)) = .ok (.bool (decide (docs ≠ []))) := by
    rw [eval_count]
    cases docs with
    | nil => rfl
    | cons d' rest =>
      have hlength : 1 < ((d :: d' :: rest).length : Int) := by
        rw [List.length_cons, List.length_cons]; omega
      show Except.ok (Value.bool (decide (1 < ((d :: d' :: rest).length : Int)))) = _
      rw [decide_eq_true hlength, decide_eq_true (List.cons_ne_nil d' rest)]
  by_cases hd : docs = []
  · have hfirst : (Expr.index (.ident "allDeployments") (.num 0)).eval h
        (listedScope n none v (d :: docs)) = .ok (.ofJson d) := by
      rw [Expr.eval, Expr.eval, Expr.eval, read_listed (by decide) rfl]; rfl
    rw [if_pos hd]
    refine runAll_branch_else (hmany.trans (by simp [hd])) ?_
    rw [runAll_ret, eval_rebuilt hcall hfirst (by simp)]
  · rw [if_neg hd]
    refine runAll_branch_true (hmany.trans (by simp [hd])) ?_
    exact runAll_throwAmbiguous (read_listed (by decide) rfl)

/-- The search for a deployer's address among the manifests. -/
theorem eval_search {address : String} (hm : h.method? "allDeployments" "find" = none)
    (hread : AreReadFrom docs records) :
    (Expr.callMethod (.ident "allDeployments") "find"
        [.arrow { params := [{ name := "d" }] }
          (.binary (.ident "d.deployerAddress") .strictEq (.ident "deployerAddress"))]).eval h
      (listedScope n (some address) v docs) =
      .ok (((records.findIdx? (isMeant (some address))).bind (docs[·]?)).elim .undefined
        .ofJson) := by
  have htest : ∀ d r, DeployerRecord.IsReadFrom r d →
      (Expr.binary (.ident "d.deployerAddress") .strictEq (.ident "deployerAddress")).eval h
        (("d", .ofJson d) :: listedScope n (some address) v docs) =
        .ok (.bool (decide (r.deployerAddress = address))) := by
    intro d r hr
    have hd : h.read (("d", .ofJson d) :: listedScope n (some address) v docs)
        "d.deployerAddress" = .ok (.str r.deployerAddress) := by
      have hp : namesOfPath "d.deployerAddress" = ["d", "deployerAddress"] := by decide
      rw [Host.read_member hp rfl, get_deployerAddress hr]
    have ha : h.read (("d", .ofJson d) :: listedScope n (some address) v docs)
        "deployerAddress" = .ok (.str address) := Host.read_local (by decide) rfl
    rw [Expr.eval, Expr.eval, Expr.eval, hd, ha]; rfl
  have hlisted : h.read (listedScope n (some address) v docs) "allDeployments" =
      .ok (.arr (docs.map .ofJson)) := read_listed (by decide) rfl
  have hargs : evalArgs h [.arrow { params := [{ name := "d" }] }
      (.binary (.ident "d.deployerAddress") .strictEq (.ident "deployerAddress"))]
      (listedScope n (some address) v docs) = .ok [.function _] := rfl
  exact (eval_callMethod hm hlisted hargs).trans (find_deployer hread htest)

/-- With a deployer's address the first record that has it is rebuilt. -/
theorem runAll_deployer {d : Json} {address : String}
    (hcall : ∀ x, h.invoke "toDeployments" [.value x] = rebuild x)
    (hm : h.method? "allDeployments" "find" = none)
    (hread : AreReadFrom (d :: docs) records) :
    runAll h ((selection imports).body.drop 3) (listedScope n (some address) v (d :: docs)) =
      (((records.findIdx? (isMeant (some address))).bind ((d :: docs)[·]?)).elim
        (.error (.thrown (.error (.str (LoadFault.notFound n.id address).message))))
        (fun d => rebuild (.ofJson d)) : Eval Value).map .returned := by
  refine (runAll_branch_false eval_noneListed).trans ((runAll_branch_false eval_deployerMissing).trans
    ((runAll_declare (eval_search hm hread)).trans ?_))
  generalize hfound : (records.findIdx? (isMeant (some address))).bind ((d :: docs)[·]?) = found
  have hresult : ∀ w, (Expr.ident "result").eval h
      (("result", w) :: listedScope n (some address) v (d :: docs)) = .ok w := by
    intro w; rw [Expr.eval, Host.read_local (by decide) rfl]
  cases found with
  | none =>
    exact runAll_branch_true (eval_isUndefined (hresult _)) runAll_throwNotFound
  | some d' =>
    refine (runAll_branch_false ((eval_isUndefined (hresult _)).trans ?_)).trans ?_
    · obtain ⟨i, -, hd⟩ := Option.bind_eq_some_iff.1 hfound
      rcases hread.at_place i with ⟨hnone, -⟩ | ⟨d'', r, hd', -, hr⟩
      · rw [hnone] at hd; cases hd
      · rw [hd'] at hd; cases hd
        rw [Option.elim_some, isUndefined_of_isReadFrom hr]
    · rw [runAll_ret, eval_rebuilt hcall (hresult _) (by simp)]; rfl

/-! ## Agreement -/

variable {t : FileTree} {dir : String} {networks : List Network} {m : Manifests}

theorem selectsAs_notDeployed (h : m.recordsOf n = []) :
    SelectsAs t dir m n deployer rebuild
      (.error (.thrown (.error (.str (LoadFault.notDeployed n.id).message)))) := by
  have hload : m.load n deployer = .error (.notDeployed n.id) := by
    unfold Manifests.load Manifests.select
    rw [h]; rfl
  unfold SelectsAs
  rw [hload]

theorem selectsAs_record {chosen : DeployerRecord} {doc d : Json} {i : Nat}
    (hload : m.load n deployer = .ok (.ofRecord n chosen))
    (hdoc : t.manifestDocument? dir n = some doc)
    (hi : (m.recordsOf n).findIdx? (isMeant deployer) = some i)
    (hr : (m.recordsOf n)[i]? = some chosen) (hd : (recordDocuments doc)[i]? = some d)
    (hread : chosen.IsReadFrom d) :
    SelectsAs t dir m n deployer rebuild (rebuild (.ofJson d)) := by
  unfold SelectsAs
  rw [hload]
  exact ⟨doc, i, d, chosen, hdoc, hi, hr, hd, hread, rfl, rfl⟩

theorem load_deployer {address : String} (h : m.recordsOf n ≠ []) :
    m.load n (some address) =
      ((m.recordsOf n).find? (isMeant (some address))).elim
        (.error (LoadFault.notFound n.id address)) (fun r => .ok (.ofRecord n r)) := by
  have hselect : m.select n (some address) =
      ((m.recordsOf n).find? (isMeant (some address))).elim
        (.error (LoadFault.notFound n.id address)) .ok := by
    unfold Manifests.select
    cases hrecords : m.recordsOf n with
    | nil => exact absurd hrecords h
    | cons r records =>
      have hmeant : (r :: records).find? (isMeant (some address)) =
          (r :: records).find? (·.deployerAddress = address) := rfl
      rw [hmeant]
      cases records <;> dsimp only <;> cases List.find? _ _ <;> rfl
  unfold Manifests.load
  rw [hselect]
  cases (m.recordsOf n).find? (isMeant (some address)) <;> rfl

/-- A search that finds nothing throws, and one that finds a record rebuilds its document. -/
theorem selectsAs_deployer {address : String} {doc : Json} (hsome : m.recordsOf n ≠ [])
    (hdoc : t.manifestDocument? dir n = some doc)
    (hread : AreReadFrom (recordDocuments doc) (m.recordsOf n)) :
    SelectsAs t dir m n (some address) rebuild
      ((((m.recordsOf n).findIdx? (isMeant (some address))).bind
          ((recordDocuments doc)[·]?)).elim
        (.error (.thrown (.error (.str (LoadFault.notFound n.id address).message))))
        (fun d => rebuild (.ofJson d))) := by
  have hload : m.load n (some address) = _ := load_deployer hsome
  rw [List.find?_eq_bind_findIdx?_getElem?] at hload
  cases hi : (m.recordsOf n).findIdx? (isMeant (some address)) with
  | none =>
    rw [hi] at hload
    unfold SelectsAs
    rw [hload]; rfl
  | some i =>
    obtain ⟨hlt, -, -⟩ := List.findIdx?_eq_some_iff_getElem.1 hi
    rcases hread.at_place i with ⟨-, hnone⟩ | ⟨d, r, hd, hr, hrd⟩
    · rw [List.getElem?_eq_getElem hlt] at hnone; cases hnone
    · rw [hi, Option.bind_some, hr] at hload
      rw [Option.bind_some, hd]
      exact selectsAs_record hload hdoc hi hr hd hrd

/-- The choice among the records that a manifest's document holds. -/
theorem selectsAs_listed {doc : Json} (hdoc : t.manifestDocument? dir n = some doc)
    (hread : AreReadFrom (recordDocuments doc) (m.recordsOf n))
    (hcall : ∀ x, h.invoke "toDeployments" [.value x] = rebuild x)
    (hm : h.method? "allDeployments" "find" = none) :
    ∃ result, runAll h ((selection imports).body.drop 3)
        (listedScope n deployer v (recordDocuments doc)) = result.map .returned ∧
      SelectsAs t dir m n deployer rebuild result := by
  cases hrecords : m.recordsOf n with
  | nil =>
    rw [hrecords] at hread
    rw [List.forall₂_nil_right_iff.1 hread]
    exact ⟨_, runAll_empty, selectsAs_notDeployed hrecords⟩
  | cons r records =>
    have hsome : m.recordsOf n ≠ [] := by rw [hrecords]; exact List.cons_ne_nil _ _
    obtain ⟨d, docs, hr, hrest, hdocs⟩ :=
      List.forall₂_cons_right_iff.1 (hrecords ▸ hread : AreReadFrom _ (r :: records))
    cases deployer with
    | some address =>
      rw [hdocs]
      refine ⟨_, runAll_deployer hcall hm (hdocs ▸ hread), ?_⟩
      rw [← hdocs]
      exact selectsAs_deployer hsome hdoc hread
    | none =>
      rw [hdocs]
      refine ⟨_, runAll_sole hcall, ?_⟩
      -- No deployer is asked for: a sole record is taken, and of several none is.
      cases hrest with
      | nil =>
        have hload : m.load n none = .ok (.ofRecord n r) := by
          unfold Manifests.load Manifests.select
          rw [hrecords]; rfl
        exact selectsAs_record hload hdoc (by rw [hrecords]; rfl) (by rw [hrecords]; rfl)
          (by rw [hdocs]; rfl) hr
      | cons hr' hrest' =>
        have hload : m.load n none = .error (.ambiguousDeployer n.id) := by
          unfold Manifests.load Manifests.select
          rw [hrecords]; rfl
        unfold SelectsAs
        rw [hload, if_neg (List.cons_ne_nil _ _)]

theorem imported_binding (n : Network) :
    (selectionHost t dir rebuild).imported (n.id ++ "Deployments") =
      (t.manifestDocument? dir n).map .ofJson := by
  have hfind : (Network.all.find? fun k => k.id ++ "Deployments" = n.id ++ "Deployments") =
      some n := by
    cases n <;> decide
  show (Network.all.find? fun k => k.id ++ "Deployments" = n.id ++ "Deployments").bind _ = _
  rw [hfind]; rfl

/-- The local variables of `selection` when it is called. -/
def calledScope (n : Network) (deployer : Option String) : Scope :=
  [("networkId", .str n.id), ("deployerAddress", deployerValue deployer)]

theorem read_binding {i : ManifestImport} {doc : Json}
    (hdoc : t.manifestDocument? dir i.network = some doc) :
    (selectionHost t dir rebuild).read (calledScope n deployer) i.binding = .ok (.ofJson doc) := by
  have hlocal : (calledScope n deployer).lookup i.binding = none := by
    have hnames : ∀ k : Network, (calledScope n deployer).lookup (k.id ++ "Deployments") = none := by
      intro k; cases k <;> rfl
    exact hnames i.network
  have himported : (selectionHost t dir rebuild).imported i.binding = some (.ofJson doc) := by
    unfold ManifestImport.binding
    rw [imported_binding, hdoc]; rfl
  unfold Host.read
  rw [namesOfPath_binding]
  simp only [hlocal, himported]
  rfl

theorem eval_deployments {host : Host} (w : Value) :
    (Expr.ident "deployments").eval host (("deployments", w) :: calledScope n deployer) = .ok w := by
  rw [Expr.eval, Host.read_local (by decide) rfl]

/-- A call on a network without a manifest throws. -/
theorem selectsAs_missing {imports : List ManifestImport} (hnone : m.recordsOf n = [])
    (hselected : (selectedManifest imports).eval (selectionHost t dir rebuild)
      (calledScope n deployer) = .ok .undefined) :
    SelectsAs t dir m n deployer rebuild ((selection imports).apply (selectionHost t dir rebuild)
      [.str n.id, deployerValue deployer]) := by
  have hrun : runAll (selectionHost t dir rebuild) (selection imports).body
      (calledScope n deployer) =
      (Except.error (.thrown (.error (.str (LoadFault.notDeployed n.id).message))) :
        Eval Value).map .returned :=
    (runAll_declare hselected).trans (runAll_branch_true (eval_isUndefined (eval_deployments _))
      (runAll_throwNotDeployed (Host.read_local (by decide) rfl)))
  rw [FunctionDecl.apply_eq hrun]
  exact selectsAs_notDeployed hnone

/-- A call on a network with a manifest chooses among its records. -/
theorem selectsAs_found {imports : List ManifestImport} {doc : Json}
    (hdoc : t.manifestDocument? dir n = some doc)
    (hread : AreReadFrom (recordDocuments doc) (m.recordsOf n))
    (hselected : (selectedManifest imports).eval (selectionHost t dir rebuild)
      (calledScope n deployer) = .ok (.ofJson doc)) :
    SelectsAs t dir m n deployer rebuild ((selection imports).apply (selectionHost t dir rebuild)
      [.str n.id, deployerValue deployer]) := by
  have hthere := isUndefined_of_documents hread
  have hlocal : (selectionHost t dir rebuild).read
      (("deployments", .ofJson doc) :: calledScope n deployer) "deployments" = .ok (.ofJson doc) :=
    Host.read_local (by decide) rfl
  have hlisted : ∃ result, runAll (selectionHost t dir rebuild) ((selection imports).body.drop 3)
      (listedScope n deployer (.ofJson doc) (recordDocuments doc)) = result.map .returned ∧
        SelectsAs t dir m n deployer rebuild result :=
    selectsAs_listed hdoc hread (fun _ => rfl) rfl
  obtain ⟨result, hresult, hselects⟩ := hlisted
  have hrun : runAll (selectionHost t dir rebuild) (selection imports).body
      (calledScope n deployer) = result.map .returned :=
    (runAll_declare hselected).trans ((runAll_branch_false ((eval_isUndefined
      (eval_deployments _)).trans (by rw [hthere]))).trans ((runAll_declare
        (eval_listed hlocal)).trans hresult))
  rw [FunctionDecl.apply_eq hrun]
  exact hselects

/-- **The generated selection agrees with `Manifests.load`**, whatever rebuilding a record does,
for every network and deployer, if the manifests of the directory can be read. -/
theorem selection_agrees (h : HasReadableManifests t dir networks) :
    ∃ log m, Manifests.ofDir t dir networks = (log, .ok m) ∧
      ∀ imports : List ManifestImport,
        imports.map ManifestImport.network = m.networks.map Manifest.network →
        ∀ rebuild n deployer, SelectsAs t dir m n deployer rebuild
          ((selection imports).apply (selectionHost t dir rebuild)
            [.str n.id, deployerValue deployer]) := by
  obtain ⟨log, m, hdir, hnetworks⟩ := Manifests.ofDir_networks h
  refine ⟨log, m, hdir, ?_⟩
  intro imports himports rebuild n deployer
  let found : Network → Value := fun k => (t.manifestDocument? dir k).elim .undefined .ofJson
  -- Every import is that of a network with a manifest, so its binding is a document.
  have hbindings : ∀ i ∈ imports, (selectionHost t dir rebuild).read (calledScope n deployer)
      i.binding = .ok (found i.network) := by
    intro i hi
    have hmem : i.network ∈ m.networks.map Manifest.network :=
      himports ▸ List.mem_map_of_mem hi
    rcases Manifests.records_of_network h hnetworks i.network with ⟨hnot, -⟩ | ⟨-, doc, hdoc, -⟩
    · exact absurd hmem hnot
    · rw [read_binding hdoc]
      simp only [found, hdoc, Option.elim_some]
  have hselected := eval_selectedManifest (Host.read_local (by decide) rfl) hbindings
  rw [himports] at hselected
  rcases Manifests.records_of_network h hnetworks n with ⟨hnot, hnone⟩ | ⟨hmem, doc, hdoc, hread⟩
  · rw [if_neg hnot] at hselected
    exact selectsAs_missing hnone hselected
  · have hfound : found n = .ofJson doc := by simp only [found, hdoc, Option.elim_some]
    rw [if_pos hmem, hfound] at hselected
    exact selectsAs_found hdoc hread hselected

/-- A directory where two deployers have deployed to one network, and none to another. -/
def twoDeployersTree : FileTree where
  entries := [(["work", ".deployments.testnet.json"],
    .file (some "[\x7b\"deployerAddress\":\"A\"\x7d,\x7b\"deployerAddress\":\"B\"\x7d]"))]
  workDir := ["work"]

theorem selection_agrees_two_deployers :
    HasReadableManifests twoDeployersTree "." [.testnet, .devnet] ∧
      ∃ log m, Manifests.ofDir twoDeployersTree "." [.testnet, .devnet] = (log, .ok m) ∧
        ∀ imports : List ManifestImport,
          imports.map ManifestImport.network = m.networks.map Manifest.network →
          ∀ rebuild n deployer, SelectsAs twoDeployersTree "." m n deployer rebuild
            ((selection imports).apply (selectionHost twoDeployersTree "." rebuild)
              [.str n.id, deployerValue deployer]) := by
  have h : HasReadableManifests twoDeployersTree "." [.testnet, .devnet] := by decide +kernel
  exact ⟨h, selection_agrees h⟩

end TypedBindings.Binding
