import TypedBindings.Deployment.Manifest
import TypedBindings.Proofs.Json.Record

/-!
# What records say about their documents

* `DeployerRecord.IsReadFrom`: a record is read from a document in its object form.
* `IsMapOf.recorded`: what a map of a record has under an id, and what the document says about it.
* `DeployerRecord.IsReadFrom.fields`, `ContractResult.instance_of_readObject`,
  `InstanceInfo.address_of_read`: where the parts of a record stand in its document.
* `Manifest.ofText_of_slash`: a text that begins with a slash has no records.
-/

namespace TypedBindings

open Json Json.Record

/-- A record is read from a document in its object form. -/
def DeployerRecord.IsReadFrom (r : DeployerRecord) (d : Json) : Prop :=
  DeployerRecord.record.readObject d = .ok r

theorem Json.asString_eq_ok {v : Json} {s : String} (h : asString v = .ok s) : v = .str s := by
  cases v <;> simp_all [asString]

theorem Json.asMap_obj {α : Type} {item : Reader α} {v : Json} {m : List (String × α)}
    (h : asMap item v = .ok m) : ∃ members, v = .obj members := by
  cases v with
  | obj members => exact ⟨members, rfl⟩
  | _ => simp [asMap] at h

theorem Json.readObject_obj {α : Type} {record : Record α} {v : Json} {a : α}
    (h : record.readObject v = .ok a) : ∃ members, v = .obj members := by
  cases v with
  | obj members => exact ⟨members, rfl⟩
  | _ => simp [readObject] at h

/-! ## Maps of results -/

/-- What a document says about a task in one of its members. -/
def recordedResult? (d : Json) (name id : String) : Option Json :=
  (d.field? name).bind (·.field? id)

/-- A map that stands in a member of a document, and is empty if there is no such member. -/
def IsMapOf {α : Type} (item : Reader α) (name : String) (d : Json) (m : List (String × α)) : Prop :=
  (d.field? name = none ∧ m = []) ∨
    ∃ entries, d.field? name = some (.obj entries) ∧
      ReadsEach item m (OrderedMap.ofList entries) ∧ (m.map Prod.fst).Nodup

section

variable {α : Type} {item : Reader α} {name : String} {d : Json} {m : List (String × α)}

theorem IsMapOf.of_defaulted {members : List (String × Json)}
    (h : (defaulted name (asMap item) []).ofMembers members = .ok m) :
    IsMapOf item name (.obj members) m := by
  rcases defaulted_eq_ok h with ⟨hn, rfl⟩ | ⟨v, hv, hm⟩
  · exact Or.inl ⟨hn, rfl⟩
  · obtain ⟨entries, rfl⟩ := asMap_obj hm
    exact Or.inr ⟨entries, hv, asMap_eq_ok hm, nodup_keys_of_asMap hm⟩

theorem IsMapOf.nodup (h : IsMapOf item name d m) : (m.map Prod.fst).Nodup := by
  rcases h with ⟨-, rfl⟩ | ⟨_, -, -, hnodup⟩
  · exact List.nodup_nil
  · exact hnodup

theorem IsMapOf.reads (h : IsMapOf item name d m) (id : String) :
    (m.lookup id = none ∧ recordedResult? d name id = none) ∨
      ∃ a v, m.lookup id = some a ∧ recordedResult? d name id = some v ∧ item v = .ok a := by
  unfold recordedResult?
  rcases h with ⟨hnone, rfl⟩ | ⟨entries, hv, hread, -⟩
  · rw [hnone]; exact Or.inl ⟨rfl, rfl⟩
  · rw [hv]; exact hread id

/-- What a map has under an id is read from what the document says about it. -/
theorem IsMapOf.recorded (h : IsMapOf item name d m) {id : String} (hid : id ∈ m.map Prod.fst) :
    ∃ a v, m.lookup id = some a ∧ recordedResult? d name id = some v ∧ item v = .ok a := by
  rcases h.reads id with ⟨hnone, -⟩ | hsome
  · exact absurd hid (OrderedMap.lookup_eq_none.1 hnone)
  · exact hsome

theorem IsMapOf.not_recorded (h : IsMapOf item name d m) {id : String}
    (hid : id ∉ m.map Prod.fst) : recordedResult? d name id = none := by
  rcases h.reads id with ⟨-, hnone⟩ | ⟨a, v, ha, -, -⟩
  · exact hnone
  · rw [OrderedMap.lookup_eq_none.2 hid] at ha; cases ha

end

/-! ## The parts of a record -/

/-- Where the parts of a record stand in its document. -/
theorem DeployerRecord.IsReadFrom.fields {r : DeployerRecord} {d : Json} (h : r.IsReadFrom d) :
    d.field? "deployerAddress" = some (.str r.deployerAddress) ∧
      IsMapOf ContractResult.record.readObject "contracts" d r.contracts ∧
      IsMapOf ScriptResult.record.readObject "scripts" d r.scripts := by
  obtain ⟨members, rfl⟩ := readObject_obj h
  have h := ofMembers_of_readObject h
  simp only [DeployerRecord.record, ofMembers_seq, ofMembers_map, combine_eq_ok] at h
  obtain ⟨_, _, ⟨_, _, ⟨_, _, ⟨_, address, hmk, haddress, rfl⟩, hcontracts, rfl⟩, hscripts, rfl⟩,
    -, rfl⟩ := h
  cases hmk
  obtain ⟨v, hv, hs⟩ := required_eq_ok haddress
  rw [asString_eq_ok hs] at hv
  exact ⟨hv, IsMapOf.of_defaulted hcontracts, IsMapOf.of_defaulted hscripts⟩

/-- A contract's result stands in an object, and its instance in a member of that. -/
theorem ContractResult.instance_of_readObject {v : Json} {c : ContractResult}
    (h : ContractResult.record.readObject v = .ok c) :
    ∃ info, v.field? "contractInstance" = some info ∧
      InstanceInfo.record.read info = .ok c.contractInstance := by
  obtain ⟨members, rfl⟩ := readObject_obj h
  have h := ofMembers_of_readObject h
  simp only [ContractResult.record, ofMembers_seq, ofMembers_map, combine_eq_ok] at h
  obtain ⟨_, _, ⟨_, _, ⟨_, _, hmk, -, rfl⟩, hinfo, rfl⟩, -, rfl⟩ := h
  cases hmk
  exact required_eq_ok hinfo

/-- An instance stands in an object with its address, or in an array. -/
theorem InstanceInfo.address_of_read {v : Json} {i : InstanceInfo}
    (h : InstanceInfo.record.read v = .ok i) :
    (∃ members, v = .obj members ∧ v.field? "address" = some (.str i.address)) ∨
      ∃ items, v = .arr items := by
  cases v with
  | arr items => exact Or.inr ⟨items, rfl⟩
  | obj members =>
    have h : InstanceInfo.record.ofMembers members = .ok i := ofMembers_of_readObject h
    simp only [InstanceInfo.record, ofMembers_seq, ofMembers_map, combine_eq_ok] at h
    obtain ⟨_, _, ⟨_, _, ⟨_, address, hmk, haddress, rfl⟩, -, rfl⟩, -, rfl⟩ := h
    cases hmk
    obtain ⟨v, hv, hs⟩ := required_eq_ok haddress
    rw [asString_eq_ok hs] at hv
    exact Or.inl ⟨members, rfl, hv⟩
  | _ => simp [Record.read, readObject] at h

/-! ## Texts without records -/

/-- No document begins with a slash. -/
theorem Json.parse?_of_slash {text : String} {rest : List Char} (h : text.toList = '/' :: rest)
    (limit : Nat) : Json.parse? text limit = none := by
  have hnumber : Json.readNumber ('/' :: rest) = Json.brokenOff := rfl
  have hvalue : ∀ fuel, Json.readValue (fuel + 1) limit ('/' :: rest) = Json.brokenOff := by
    intro fuel
    rw [Json.readValue]
    exact hnumber
  have htext : Json.ofText text limit = (.defect .grammar, false) := by
    unfold Json.ofText
    rw [h]
    dsimp only
    rw [hvalue]
    rfl
  unfold Json.parse?
  rw [htext]
  rfl

theorem Manifest.ofText_of_slash {text : String} {rest : List Char}
    (h : text.toList = '/' :: rest) : Manifest.ofText text = .error .torn := by
  unfold Manifest.ofText
  rw [Json.parse?_of_slash h]

end TypedBindings
