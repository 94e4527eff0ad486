import TypedBindings.Proofs.Deployment.Manifest
import TypedBindings.Proofs.Json.Parsed
import TypedBindings.Proofs.Json.Printing
import TypedBindings.Proofs.Json.Rewriting

/-!
# Manifests read back

A record is written with all its fields, and with the metadata of its results behind them. It reads
back if no metadata has the name of a field and no name stands twice, which holds of every record
that was read.

* `IsMetadata`: members that can stand behind the fields of a result.
* `DeployerRecord.IsRewritable`, and `isRewritable_of_readRecords`: every record that was read is.
* `DeployerRecord.read_toJson`: a record that is, reads back.
* `readRecords_singleton`: a record in its object form and the list of it are read alike.
-/

namespace TypedBindings

open Json Json.Record

/-! ## Metadata -/

/-- Members that can stand behind the fields of a result. -/
structure IsMetadata (names : List String) (members : List (String × Json)) : Prop where
  tidy : (Json.obj members).IsTidy
  foreign : ∀ m ∈ members, m.1 ∉ names

/-- What is left when a record's own members are taken out is metadata. -/
theorem isMetadata_others {names : List String} {members : List (String × Json)}
    (h : ∀ m ∈ members, m.2.IsPlain) : IsMetadata names (others names members) where
  tidy := .obj (nodup_keys_mergedMembers _)
    (isTidy_mergedMembers fun m hm => (h m (List.mem_filter.1 hm).1).isTidy_merged)
  foreign := by
    unfold others
    rw [mergedMembers_eq]
    intro m hm
    obtain ⟨m', hm', rfl⟩ := List.mem_map.1 (OrderedMap.mem_of_mem_ofList hm)
    exact of_decide_eq_true (List.mem_filter.1 hm').2

section

variable {names : List String} {metadata own : List (String × Json)}

/-- Metadata that is written behind a record's own members is read as metadata again. -/
theorem IsMetadata.others_append (h : IsMetadata names metadata)
    (hown : ∀ m ∈ own, m.1 ∈ names) : others names (own ++ metadata) = metadata := by
  have hnone : own.filter (fun m => m.1 ∉ names) = [] :=
    List.filter_eq_nil_iff.2 fun m hm => by simpa using hown m hm
  have hall : metadata.filter (fun m => m.1 ∉ names) = metadata :=
    List.filter_eq_self.2 fun m hm => by simpa using h.foreign m hm
  have hmerged := h.tidy.merged_eq
  rw [merged] at hmerged
  unfold others
  rw [List.filter_append, hnone, hall, List.nil_append]
  exact Json.obj.inj hmerged

/-- A field is read from the members in front of the metadata. -/
theorem IsMetadata.filter_append (h : IsMetadata names metadata) {name : String}
    (hname : name ∈ names) (own : List (String × Json)) :
    (own ++ metadata).filter (·.1 = name) = own.filter (·.1 = name) := by
  have hnone : metadata.filter (·.1 = name) = [] :=
    List.filter_eq_nil_iff.2 fun m hm heq => h.foreign m hm (of_decide_eq_true heq ▸ hname)
  rw [List.filter_append, hnone, List.append_nil]

theorem IsMetadata.isPassable (h : IsMetadata names metadata) {m : String × Json}
    (hm : m ∈ metadata) : m.2.isPassable = true :=
  IsPlain.isPassable (h.tidy.isPlain.members m hm)

/-- Own members and metadata together repeat no name. -/
theorem IsMetadata.isTidy_append (h : IsMetadata names metadata) (own : List (String × Json))
    (hnodup : (own.map Prod.fst).Nodup) (hnames : ∀ m ∈ own, m.1 ∈ names)
    (hown : ∀ m ∈ own, m.2.IsTidy) : (Json.obj (own ++ metadata)).IsTidy := by
  obtain ⟨htidy, hforeign⟩ := h
  cases htidy with
  | leaf hv _ => cases hv
  | obj hmetadata hvalues =>
    refine .obj ?_ fun m hm => (List.mem_append.1 hm).elim (hown m) (hvalues m)
    rw [List.map_append, List.nodup_append]
    refine ⟨hnodup, hmetadata, fun k hk k' hk' => ?_⟩
    obtain ⟨m, hm, rfl⟩ := List.mem_map.1 hk
    obtain ⟨m', hm', rfl⟩ := List.mem_map.1 hk'
    exact fun heq => hforeign m' hm' (heq ▸ hnames m hm)

end

/-! ## Instances and results -/

theorem asOption_of_ne {α : Type} {item : Reader α} {v : Json} {a : α} (hv : v ≠ .null)
    (h : item v = .ok a) : asOption item v = .ok (some a) := by
  cases v with
  | null => exact absurd rfl hv
  | _ => rw [asOption, h] <;> simp [Except.map]

/-- A group of 32 bits is read back. -/
theorem asUInt32_write (n : UInt32) : asUInt32 (.int n.toNat) = .ok n := by
  have hlt := n.toNat_lt_size
  rw [asUInt32, if_pos ⟨Int.natCast_nonneg _, by rwa [Int.toNat_natCast]⟩, Int.toNat_natCast,
    UInt32.ofNat_toNat]

/-- What is recorded of an instance is read back. -/
theorem InstanceInfo.read_toJson (i : InstanceInfo) :
    InstanceInfo.record.read i.toJson = .ok i := by
  obtain ⟨address, contractId, groupIndex⟩ := i
  -- an absent option leaves no member, so each of the four forms is looked through by itself
  refine ReadsFrom.read (.seq (.seq (.map ?_ _) ?_) ?_) ?_
  · exact .required (by cases contractId <;> cases groupIndex <;> rfl) rfl
  · refine .optional_of_toList ?_ fun s => asOption_of_ne (v := .str s) (by simp) rfl
    cases contractId <;> cases groupIndex <;> rfl
  · refine .optional_of_toList ?_ fun n => asOption_of_ne (by simp) (asUInt32_write n)
    cases contractId <;> cases groupIndex <;> rfl
  · cases contractId <;> cases groupIndex <;> rfl

theorem isTidy_groupIndex (n : UInt32) : (Json.int n.toNat).IsTidy := by
  have hlt : n.toNat < 4294967296 := n.toNat_lt_size
  refine .leaf rfl ⟨?_, ?_⟩
  · omega
  · have hword : Text.wordSize = 18446744073709551616 := rfl
    omega

theorem InstanceInfo.isTidy_toJson (i : InstanceInfo) : i.toJson.IsTidy := by
  obtain ⟨address, contractId, groupIndex⟩ := i
  refine .obj ?_ ?_
  · cases contractId <;> cases groupIndex <;> simp
  · cases contractId <;> cases groupIndex <;> simp [isTidy_groupIndex]

/-- The metadata of a result stands behind its fields. -/
theorem IsMetadata.readsFrom {names : List String} {metadata own : List (String × Json)}
    (h : IsMetadata names metadata) (hown : ∀ m ∈ own, m.1 ∈ names) :
    (metadataOf names).ReadsFrom (own ++ metadata) metadata := by
  unfold ReadsFrom metadataOf
  dsimp only
  rw [h.others_append hown]

/-- What belongs to no field is metadata, and can be passed over. -/
theorem IsMetadata.passes {names fields : List String} {metadata own : List (String × Json)}
    (h : IsMetadata names metadata) (hown : ∀ m ∈ own, m.1 ∈ fields) :
    ∀ m ∈ own ++ metadata, m.1 ∉ fields → m.2.isPassable = true := by
  intro m hm hname
  rcases List.mem_append.1 hm with hm | hm
  · exact absurd (hown m hm) hname
  · exact h.isPassable hm

/-- The result of deploying a contract is read back with its metadata. -/
theorem ContractResult.read_toJson {c : ContractResult}
    (h : IsMetadata ["txId", "contractInstance"] c.metadata) :
    ContractResult.record.readObject c.toJson = .ok c := by
  obtain ⟨txId, info, metadata⟩ := c
  have hown : ∀ m ∈ [("txId", Json.str txId), ("contractInstance", info.toJson)],
      m.1 ∈ ["txId", "contractInstance"] := by simp
  refine ReadsFrom.readObject (.seq (.seq (.map ?_ _) ?_) ?_) (h.passes hown)
  · exact .defaulted (h.filter_append (by simp) [_, _]) rfl
  · exact .required (h.filter_append (by simp) [_, _]) info.read_toJson
  · exact h.readsFrom hown

/-- The result of running a script is read back with its metadata. -/
theorem ScriptResult.read_toJson {s : ScriptResult} (h : IsMetadata ["txId"] s.metadata) :
    ScriptResult.record.readObject s.toJson = .ok s := by
  obtain ⟨txId, metadata⟩ := s
  have hown : ∀ m ∈ [("txId", Json.str txId)], m.1 ∈ ["txId"] := by simp
  refine ReadsFrom.readObject (.seq (.map ?_ _) ?_) (h.passes hown)
  · exact .defaulted (h.filter_append (by simp) [_]) rfl
  · exact h.readsFrom hown

theorem ContractResult.isTidy_toJson {c : ContractResult}
    (h : IsMetadata ["txId", "contractInstance"] c.metadata) : c.toJson.IsTidy :=
  h.isTidy_append [("txId", .str c.txId), ("contractInstance", c.contractInstance.toJson)]
    (by simp) (by simp) (by simp [InstanceInfo.isTidy_toJson])

theorem ScriptResult.isTidy_toJson {s : ScriptResult} (h : IsMetadata ["txId"] s.metadata) :
    s.toJson.IsTidy :=
  h.isTidy_append [("txId", .str s.txId)] (by simp) (by simp) (by simp)

/-! ## Records -/

/-- A record that reads back: no id stands twice, and metadata stands behind the fields of its
result. -/
structure DeployerRecord.IsRewritable (r : DeployerRecord) : Prop where
  contracts : IsMapWith (fun c => IsMetadata ["txId", "contractInstance"] c.metadata) r.contracts
  scripts : IsMapWith (fun s => IsMetadata ["txId"] s.metadata) r.scripts
  migrations : IsMapWith IsTidy r.migrations

/-- Tidy documents under names of their own are read back as they are. -/
theorem asMap_asDocument {m : List (String × Json)} (hm : IsMapWith IsTidy m) :
    asMap asDocument (.obj m) = .ok m := by
  have hmap : asMap asDocument (.obj (m.map fun e => (e.1, id e.2))) = .ok m :=
    asMap_write hm id fun v hv => congrArg Except.ok hv.merged_eq
  have hsame : m.map (fun e => (e.1, id e.2)) = m := List.map_id m
  rwa [hsame] at hmap

/-- **A record that is rewritable reads back.** -/
theorem DeployerRecord.read_toJson {r : DeployerRecord} (h : r.IsRewritable) :
    DeployerRecord.record.read r.toJson = .ok r := by
  obtain ⟨hcontracts, hscripts, hmigrations⟩ := h
  obtain ⟨address, contracts, scripts, migrations⟩ := r
  refine ReadsFrom.read (.seq (.seq (.seq (.map ?_ _) ?_) ?_) ?_) rfl
  · exact .required rfl rfl
  · exact .defaulted rfl (asMap_write hcontracts _ fun _ hc => ContractResult.read_toJson hc)
  · exact .defaulted rfl (asMap_write hscripts _ fun _ hs => ScriptResult.read_toJson hs)
  · exact .defaulted rfl (asMap_asDocument hmigrations)

/-- What is written for a record is tidy. -/
theorem DeployerRecord.isTidy_toJson {r : DeployerRecord} (h : r.IsRewritable) :
    r.toJson.IsTidy := by
  obtain ⟨hcontracts, hscripts, hmigrations⟩ := h
  refine .obj
    (show List.Nodup ["deployerAddress", "contracts", "scripts", "migrations"] by decide) ?_
  simp only [List.forall_mem_cons]
  refine ⟨isTidy_str _, ?_, ?_, ?_, List.forall_mem_nil _⟩
  · exact hcontracts.isTidy fun _ hc => ContractResult.isTidy_toJson hc
  · exact hscripts.isTidy fun _ hs => ScriptResult.isTidy_toJson hs
  · exact .obj hmigrations.nodup hmigrations.values

/-! ## Every record that is read is rewritable -/

/-- Metadata that was read once can be written and read again. -/
theorem ContractResult.isMetadata_of_readObject {v : Json} {c : ContractResult} (hv : v.IsPlain)
    (h : ContractResult.record.readObject v = .ok c) :
    IsMetadata ["txId", "contractInstance"] c.metadata := by
  obtain ⟨members, rfl⟩ := readObject_obj h
  have h := ofMembers_of_readObject h
  simp only [ContractResult.record, ofMembers_seq, ofMembers_map, combine_eq_ok] at h
  obtain ⟨_, _, ⟨_, _, ⟨_, _, hmk, -, rfl⟩, -, rfl⟩, hothers, rfl⟩ := h
  cases hmk
  cases hothers
  exact isMetadata_others hv.members

theorem ScriptResult.isMetadata_of_readObject {v : Json} {s : ScriptResult} (hv : v.IsPlain)
    (h : ScriptResult.record.readObject v = .ok s) : IsMetadata ["txId"] s.metadata := by
  obtain ⟨members, rfl⟩ := readObject_obj h
  have h := ofMembers_of_readObject h
  simp only [ScriptResult.record, ofMembers_seq, ofMembers_map, combine_eq_ok] at h
  obtain ⟨_, _, ⟨_, _, hmk, -, rfl⟩, hothers, rfl⟩ := h
  cases hmk
  cases hothers
  exact isMetadata_others hv.members

/-- A record is rewritable, whichever form it is read from. -/
theorem DeployerRecord.ensures_isRewritable :
    DeployerRecord.record.Ensures IsPlain DeployerRecord.IsRewritable := by
  have haddress : (required "deployerAddress" asString).Ensures IsPlain fun _ => True :=
    .required fun _ _ _ _ => trivial
  have hcontracts : (defaulted "contracts" (asMap ContractResult.record.readObject) []).Ensures
      IsPlain (IsMapWith fun c => IsMetadata ["txId", "contractInstance"] c.metadata) :=
    .defaultedMap fun _ _ hv h => ContractResult.isMetadata_of_readObject hv h
  have hscripts : (defaulted "scripts" (asMap ScriptResult.record.readObject) []).Ensures
      IsPlain (IsMapWith fun s => IsMetadata ["txId"] s.metadata) :=
    .defaultedMap fun _ _ hv h => ScriptResult.isMetadata_of_readObject hv h
  have hmigrations : (defaulted "migrations" (asMap asDocument) []).Ensures
      IsPlain (IsMapWith IsTidy) :=
    .defaultedMap fun _ _ hv h => by cases h; exact hv.isTidy_merged
  exact .seq (.seq (.seq (.map haddress fun _ _ _ hc _ hs _ hm => ⟨hc, hs, hm⟩) hcontracts)
    hscripts) hmigrations

/-- Whatever records are read from a plain document can be written again. -/
theorem isRewritable_of_readRecords {v : Json} {rs : List DeployerRecord} (hv : v.IsPlain)
    (h : readRecords v = .ok rs) : ∀ r ∈ rs, r.IsRewritable := by
  have hread : ∀ w r, w.IsPlain → DeployerRecord.record.read w = .ok r → r.IsRewritable :=
    fun w r hw hr => DeployerRecord.ensures_isRewritable.read hw.parts hr
  unfold readRecords at h
  -- a list of records, or else one record
  split at h
  · next records hlist => cases h; exact asList_ensures hread hv.parts hlist
  · split at h
    · next r hr => cases h; exact List.forall_mem_singleton.2 (hread v r hv hr)
    · cases h

/-- A manifest's records are read back in their order. -/
theorem readRecords_write {rs : List DeployerRecord} (h : ∀ r ∈ rs, r.IsRewritable) :
    readRecords (.arr (rs.map DeployerRecord.toJson)) = .ok rs := by
  unfold readRecords
  rw [asList_write fun r hr => DeployerRecord.read_toJson (h r hr)]

/-- **A record and the list of it are read alike**, if it is in its object form. -/
theorem readRecords_singleton (members : List (String × Json)) :
    readRecords (.arr [.obj members]) = readRecords (.obj members) := by
  have hlist : asList DeployerRecord.record.read (.arr [.obj members]) =
      (DeployerRecord.record.read (.obj members)).map fun r => [r] := by
    unfold asList
    dsimp only
    rw [List.mapM_cons, List.mapM_nil]
    cases DeployerRecord.record.read (.obj members) <;> rfl
  -- the list is no record in its array form, for an object is no address
  have harray : ∃ fault, DeployerRecord.record.read (.arr [.obj members]) = .error fault := ⟨_, rfl⟩
  obtain ⟨fault, harray⟩ := harray
  unfold readRecords
  rw [hlist, harray]
  cases DeployerRecord.record.read (.obj members) <;> rfl

/-! ## Texts -/

/-- Reads the records that a text holds, with room for a nesting. -/
def Manifest.ofTextWithin (limit : Nat) (text : String) : Except Fault (List DeployerRecord) :=
  match Json.parse? text limit with
  | some v => readRecords v
  | none => .error .torn

theorem Manifest.ofText_eq (text : String) :
    Manifest.ofText text = Manifest.ofTextWithin depthLimit text := rfl

/-- The document of a list of records. -/
def Manifest.recordsJson (rs : List DeployerRecord) : Json := .arr (rs.map DeployerRecord.toJson)

/-- **The records of a manifest read back from their text**, if it had no reals. -/
theorem Manifest.ofTextWithin_write {text : String} {limit limit' : Nat}
    {rs : List DeployerRecord} (h : Manifest.ofTextWithin limit text = .ok rs)
    (hreals : (Json.ofText text limit).1.HasNoReals)
    (hlimit : (Manifest.recordsJson rs).depth ≤ limit') :
    Manifest.ofTextWithin limit' (Manifest.recordsJson rs).write = .ok rs := by
  unfold Manifest.ofTextWithin at h
  split at h
  · next v hparse =>
    rw [(parse?_eq_some hparse).1] at hreals
    have hrewritable := isRewritable_of_readRecords (isPlain_of_parse? hparse hreals) h
    have htidy : (Manifest.recordsJson rs).IsTidy :=
      .arr (List.forall_mem_map.2 fun r hr => DeployerRecord.isTidy_toJson (hrewritable r hr))
    unfold Manifest.ofTextWithin
    rw [parse?_write htidy.isPlain hlimit]
    exact readRecords_write hrewritable
  · cases h

end TypedBindings
