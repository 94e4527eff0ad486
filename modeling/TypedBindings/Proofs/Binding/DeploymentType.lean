import TypedBindings.Proofs.Binding.DeploymentParts
import TypedBindings.Proofs.Binding.Rebuilding

/-!
# The type of the deployments fits every record

The type is made from the tasks of all records together, and is used for one record at a time.

* `Fits`: an object type requires only tasks that a record has, and has a member for each of them.
* `deploymentsType_fits`: the type of the deployments does so for every record of every network, for
  contracts and for scripts.
-/

namespace TypedBindings.TypeScript

/-- The members of the object type that a member has, none if there is no such member. -/
def Ty.membersUnder (name : String) (type : Ty) : List (Member Ty) :=
  match type.member? name with
  | some (.object members) => members
  | _ => []

end TypedBindings.TypeScript

namespace TypedBindings.Binding

open TypeScript

/-- The type of a deployed contract, which names the class of its instances. -/
def deployedType (d : DeployedContract) : Ty :=
  .generic "DeployContractExecutionResult" [.named d.handle.className]

/-- **An object type fits the tasks that a record has**, given which of them it is to know and of what
types they are. -/
structure Fits {α : Type} (members : List (Member Ty)) (recorded : List (String × α))
    (isKnown : String → Prop) (type : String → α → Ty) : Prop where
  /-- What is not optional is there. -/
  sound : ∀ m ∈ members, m.isOptional = false → ∃ e ∈ recorded, m.name = TaskId.variableName e.1
  /-- What is there has a member of its own type. -/
  complete : ∀ e ∈ recorded, isKnown e.1 →
    ∃ m ∈ members, m.name = TaskId.variableName e.1 ∧ m.type = type e.1 e.2

/-- **The type of the deployments fits a record**: its contracts that are bound, and its scripts. -/
structure FitsRecord (contracts : List String) (type : Ty) (r : DeployerRecord) : Prop where
  contracts : Fits (type.membersUnder "contracts") r.contracts
    (fun id => TaskId.typeName id ∈ contracts) fun id result => deployedType (.ofResult id result)
  scripts : Fits (type.membersUnder "scripts") r.scripts (fun _ => True)
    fun _ _ => .named "RunScriptResult"

variable {m : Manifests} {contracts : List String} {r : DeployerRecord}

/-- The members of merged ids fit a record that has all required ids, and none but merged ones. -/
theorem fits_idMembers {α : Type} {member : Bool → String → Member Ty} {ids : MergedIds}
    {recorded : List (String × α)} {isKnown : String → Prop} {type : String → α → Ty}
    (hname : ∀ isOptional id, (member isOptional id).name = TaskId.variableName id)
    (hoptional : ∀ isOptional id, (member isOptional id).isOptional = isOptional)
    (htype : ∀ isOptional id a, (member isOptional id).type = type id a)
    (hrequired : ∀ id ∈ ids.required, id ∈ recorded.map Prod.fst)
    (hall : ∀ id ∈ recorded.map Prod.fst, isKnown id → id ∈ ids.all) :
    Fits (idMembers member ids) recorded isKnown type where
  sound k hk hplain := by
    rcases List.mem_append.1 hk with hk | hk
    · obtain ⟨id, hid, rfl⟩ := List.mem_map.1 hk
      obtain ⟨e, he, rfl⟩ := List.mem_map.1 (hrequired id hid)
      exact ⟨e, he, hname false e.1⟩
    · obtain ⟨id, -, rfl⟩ := List.mem_map.1 hk
      rw [hoptional] at hplain
      cases hplain
  complete e he hknown := by
    rcases List.mem_append.1 (hall e.1 (List.mem_map_of_mem he) hknown) with hid | hid
    · exact ⟨_, List.mem_append_left _ (List.mem_map_of_mem hid), hname false e.1,
        htype false e.1 e.2⟩
    · exact ⟨_, List.mem_append_right _ (List.mem_map_of_mem hid), hname true e.1,
        htype true e.1 e.2⟩

theorem membersUnder_deploymentsType (s : Schema) :
    (deploymentsType s).type.membersUnder "contracts" = idMembers contractMember s.contracts ∧
      (deploymentsType s).type.membersUnder "scripts" = idMembers scriptMember s.scripts := by
  obtain ⟨hcontracts, hscripts⟩ := member?_deploymentsType s
  unfold Ty.membersUnder
  rw [hcontracts, hscripts]
  refine ⟨rfl, ?_⟩
  by_cases hs : s.hasScripts = true
  · rw [if_pos hs]
  · -- Without scripts there is no such member, and there are no merged ids to have members.
    have hnone : s.scripts.required ++ s.scripts.optional = [] := by
      rw [hasScripts_iff] at hs
      exact not_not.1 hs
    obtain ⟨hrequired, hoptional⟩ := List.append_eq_nil_iff.1 hnone
    rw [if_neg hs]
    unfold idMembers
    rw [hrequired, hoptional]
    rfl

theorem mem_scripts_of_required {id : String} (hr : r ∈ m.records)
    (hid : id ∈ (boundSchema m contracts).scripts.required) : id ∈ r.scripts.map Prod.fst :=
  (MergedIds.mem_required.1 hid).2 _ (List.mem_map_of_mem hr)

theorem fitsRecord_boundSchema (hr : r ∈ m.records) :
    FitsRecord contracts (deploymentsType (boundSchema m contracts)).type r := by
  obtain ⟨hcontracts, hscripts⟩ := membersUnder_deploymentsType (boundSchema m contracts)
  refine ⟨hcontracts ▸ ?_, hscripts ▸ ?_⟩
  · refine fits_idMembers (fun _ _ => rfl) (fun _ _ => rfl) (fun _ _ _ => rfl)
      (fun id hid => mem_contracts_of_required hr hid) fun id hid hbound => ?_
    exact mem_boundSchema.2 ⟨mem_schema_contracts hr hid, List.contains_iff_mem.2 hbound⟩
  · exact fits_idMembers (fun _ _ => rfl) (fun _ _ => rfl) (fun _ _ _ => rfl)
      (fun id hid => mem_scripts_of_required hr hid) fun id hid _ => mem_boundSchema_scripts hr hid

/-- **The type of the deployments fits every record of every network**, wherever it stands among the
others. -/
theorem deploymentsType_fits (m : Manifests) (imports : List ManifestImport)
    (contracts : List String) {k : Manifest} (hk : k ∈ m.networks) {r : DeployerRecord}
    (hr : r ∈ k.records) :
    ∃ type, (deploymentsUnit m imports contracts).aliasDecl? "Deployments" = some type ∧
      FitsRecord contracts type.type r :=
  ⟨_, aliasDecl?_deploymentsUnit m imports contracts,
    fitsRecord_boundSchema (List.mem_flatMap.2 ⟨k, hk, hr⟩)⟩

/-- A deployer who has deployed two instances of one contract and one of another, and run a script. -/
def busyRecord : DeployerRecord :=
  ⟨"X", [("Coin", ⟨"c", ⟨"a", none, none⟩, []⟩), ("Coin:second", ⟨"c", ⟨"b", none, none⟩, []⟩),
    ("Vault", ⟨"v", ⟨"d", none, none⟩, []⟩)], [("Main", ⟨"s", []⟩)], []⟩

/-- A deployer who has deployed one contract, on another network. -/
def idleRecord : DeployerRecord := ⟨"Y", [("Coin", ⟨"c", ⟨"e", none, none⟩, []⟩)], [], []⟩

def busyAndIdle : Manifests :=
  ⟨[⟨.testnet, ".deployments.testnet.json", [busyRecord]⟩,
    ⟨.devnet, ".deployments.devnet.json", [idleRecord]⟩]⟩

theorem deploymentsType_fits_idle :
    ⟨.devnet, ".deployments.devnet.json", [idleRecord]⟩ ∈ busyAndIdle.networks ∧
      idleRecord ∈ [idleRecord] ∧
      ∃ type, (deploymentsUnit busyAndIdle [] ["Coin"]).aliasDecl? "Deployments" = some type ∧
        FitsRecord ["Coin"] type.type idleRecord :=
  ⟨List.mem_cons_of_mem _ List.mem_cons_self, List.mem_singleton_self _,
    deploymentsType_fits busyAndIdle [] ["Coin"] (List.mem_cons_of_mem _ List.mem_cons_self)
      (List.mem_singleton_self _)⟩

end TypedBindings.Binding
