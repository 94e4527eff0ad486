import Mathlib.Data.List.Forall2
import TypedBindings.Deployment.Directory
import TypedBindings.Proofs.Deployment.Manifest

/-!
# Manifests that can be read

A snapshot of a directory in which every manifest that is there holds one record or a list of
records, in object form.

* `readRecords_of_documents`: such a manifest is read record by record.
* `Manifests.ofDir_networks`: reading such a directory succeeds, with one manifest for each network
  that has one.
* `Manifests.recordsOf_eq`, `Manifests.records_of_network`: a network's records are those in its
  file, however often the network is asked for.
-/

namespace TypedBindings

open Json Json.Record

theorem Network.id_injective {n k : Network} (e : n.id = k.id) : n = k := by
  revert e; cases n <;> cases k <;> decide

/-- The document in a network's manifest. -/
def FileTree.manifestDocument? (t : FileTree) (dir : String) (n : Network) : Option Json :=
  (t.readText (n.manifestPath dir)).bind fun text => Json.parse? text Json.depthLimit

/-- The documents of the records in a manifest: the items of a list, or the one document. -/
def recordDocuments : Json → List Json
  | .arr items => items
  | v => [v]

/-- Every manifest that is there holds one record or a list of records, in object form. -/
def HasReadableManifests (t : FileTree) (dir : String) (networks : List Network) : Prop :=
  ∀ n ∈ networks, t.hasEntry (n.manifestPath dir) = true →
    ∃ v, t.manifestDocument? dir n = some v ∧
      ∀ d ∈ recordDocuments v, ∃ r : DeployerRecord, r.IsReadFrom d

instance (d : Json) : Decidable (∃ r : DeployerRecord, r.IsReadFrom d) :=
  decidable_of_iff ((DeployerRecord.record.readObject d).toOption.isSome = true) (by
    unfold DeployerRecord.IsReadFrom
    cases DeployerRecord.record.readObject d <;> simp [Except.toOption])

instance (t : FileTree) (dir : String) (networks : List Network) :
    Decidable (HasReadableManifests t dir networks) :=
  decidable_of_iff (∀ n ∈ networks, t.hasEntry (n.manifestPath dir) = true →
      ∃ v ∈ t.manifestDocument? dir n, ∀ d ∈ recordDocuments v, ∃ r : DeployerRecord,
        r.IsReadFrom d) (by simp only [HasReadableManifests, Option.mem_def])

/-- Records that are read from documents, one from each. -/
abbrev AreReadFrom (documents : List Json) (records : List DeployerRecord) : Prop :=
  List.Forall₂ (fun d r => DeployerRecord.IsReadFrom r d) documents records

/-- Documents and their records stand at the same places. -/
theorem AreReadFrom.at_place {documents : List Json} {records : List DeployerRecord}
    (h : AreReadFrom documents records) (i : Nat) :
    (documents[i]? = none ∧ records[i]? = none) ∨
      ∃ d r, documents[i]? = some d ∧ records[i]? = some r ∧ DeployerRecord.IsReadFrom r d := by
  induction h generalizing i with
  | nil => exact Or.inl ⟨rfl, rfl⟩
  | @cons d r rest records' hr _ ih =>
    cases i with
    | zero => exact Or.inr ⟨d, r, rfl, rfl, hr⟩
    | succ i => exact ih i

theorem DeployerRecord.IsReadFrom.read {r : DeployerRecord} {d : Json} (h : r.IsReadFrom d) :
    DeployerRecord.record.read d = .ok r := by
  obtain ⟨members, rfl⟩ := readObject_obj h
  exact h

theorem mapM_read {documents : List Json}
    (h : ∀ d ∈ documents, ∃ r : DeployerRecord, r.IsReadFrom d) :
    ∃ records, documents.mapM DeployerRecord.record.read = .ok records ∧
      AreReadFrom documents records := by
  induction documents with
  | nil => exact ⟨[], rfl, .nil⟩
  | cons d rest ih =>
    obtain ⟨r, hr⟩ := h d List.mem_cons_self
    obtain ⟨records, hrecords, hall⟩ := ih fun d hd => h d (List.mem_cons_of_mem _ hd)
    refine ⟨r :: records, ?_, .cons hr hall⟩
    rw [List.mapM_cons, hr.read, hrecords]; rfl

/-- **A manifest is read record by record**, whether it is a list or one record. -/
theorem readRecords_of_documents {v : Json}
    (h : ∀ d ∈ recordDocuments v, ∃ r : DeployerRecord, r.IsReadFrom d) :
    ∃ records, readRecords v = .ok records ∧ AreReadFrom (recordDocuments v) records := by
  by_cases hv : ∃ items, v = .arr items
  · obtain ⟨items, rfl⟩ := hv
    have hitems : ∀ d ∈ items, ∃ r : DeployerRecord, r.IsReadFrom d := h
    obtain ⟨records, hm, hall⟩ := mapM_read hitems
    refine ⟨records, ?_, hall⟩
    unfold readRecords; rw [asList, hm]
  · have hdocs : recordDocuments v = [v] := by
      cases v with
      | arr items => exact absurd ⟨items, rfl⟩ hv
      | _ => rfl
    obtain ⟨r, hr⟩ := h v (by rw [hdocs]; exact List.mem_singleton_self v)
    obtain ⟨members, rfl⟩ := readObject_obj hr
    refine ⟨[r], ?_, by rw [hdocs]; exact .cons hr .nil⟩
    have hlist : asList DeployerRecord.record.read (.obj members) = .error .shape := rfl
    unfold readRecords; rw [hlist, hr.read]

/-- What reading a network's manifest gives, if there is one. -/
def FileTree.manifest? (t : FileTree) (dir : String) (n : Network) : Option Manifest :=
  (t.manifestDocument? dir n).bind fun v =>
    (readRecords v).toOption.map fun records => ⟨n, n.manifestPath dir, records⟩

variable {t : FileTree} {dir : String} {networks : List Network}

theorem FileTree.manifest?_eq_some {n : Network} {m : Manifest} (h : t.manifest? dir n = some m) :
    m.network = n ∧ ∃ v, t.manifestDocument? dir n = some v ∧ readRecords v = .ok m.records := by
  unfold FileTree.manifest? at h
  obtain ⟨v, hv, h⟩ := Option.bind_eq_some_iff.1 h
  obtain ⟨records, hrecords, rfl⟩ := Option.map_eq_some_iff.1 h
  refine ⟨rfl, v, hv, ?_⟩
  cases hr : readRecords v with
  | error e => rw [hr] at hrecords; cases hrecords
  | ok found => rw [hr] at hrecords; cases hrecords; rfl

theorem FileTree.manifestDocument?_of_not_hasEntry {n : Network}
    (h : ¬ t.hasEntry (n.manifestPath dir) = true) : t.manifestDocument? dir n = none := by
  unfold FileTree.hasEntry at h
  unfold FileTree.manifestDocument? FileTree.readText
  cases hl : t.lookup (n.manifestPath dir) with
  | none => rfl
  | some e => simp [hl] at h

theorem Manifest.ofDir?_eq {n : Network} (h : t.hasEntry (n.manifestPath dir) = true →
      ∃ v, t.manifestDocument? dir n = some v ∧
        ∀ d ∈ recordDocuments v, ∃ r : DeployerRecord, r.IsReadFrom d) :
    Manifest.ofDir? t dir n = .ok (t.manifest? dir n) := by
  unfold Manifest.ofDir? FileTree.manifest?
  by_cases he : t.hasEntry (n.manifestPath dir) = true
  · obtain ⟨v, hv, hdocs⟩ := h he
    obtain ⟨records, hrecords, -⟩ := readRecords_of_documents hdocs
    obtain ⟨text, htext, hparse⟩ := Option.bind_eq_some_iff.1 hv
    have htext' : Manifest.ofText text = .ok records := by
      unfold Manifest.ofText; rw [hparse]; exact hrecords
    simp only [he, if_true, htext, htext', hv, hrecords, Option.bind_some, Except.toOption,
      Option.map_some]
  · rw [FileTree.manifestDocument?_of_not_hasEntry he]
    simp [he]

theorem Manifests.ofDir_cons (n : Network) (rest : List Network) :
    Manifests.ofDir t dir (n :: rest) =
      match Manifest.ofDir? t dir n with
      | .error fault => ([], .error fault)
      | .ok found =>
        let (log, result) := Manifests.ofDir t dir rest
        (Manifest.report n found :: log, result.map fun m => ⟨found.toList ++ m.networks⟩) := by
  rfl

/-- What is read depends on what the paths of manifests lead to. -/
theorem Manifests.ofDir_congr {t' : FileTree}
    (h : ∀ n ∈ networks, t'.lookup (n.manifestPath dir) = t.lookup (n.manifestPath dir)) :
    Manifests.ofDir t' dir networks = Manifests.ofDir t dir networks := by
  induction networks with
  | nil => rfl
  | cons n rest ih =>
    have hn : Manifest.ofDir? t' dir n = Manifest.ofDir? t dir n := by
      unfold Manifest.ofDir? FileTree.hasEntry FileTree.readText
      dsimp only
      rw [h n List.mem_cons_self]
    rw [Manifests.ofDir_cons, Manifests.ofDir_cons, hn,
      ih fun n hn => h n (List.mem_cons_of_mem _ hn)]

/-- Where reading succeeds, every manifest that is there has a text with records in it. -/
theorem Manifests.text_of_ofDir {m : Manifests} (h : (Manifests.ofDir t dir networks).2 = .ok m)
    {n : Network} (hn : n ∈ networks) (hentry : t.hasEntry (n.manifestPath dir) = true) :
    ∃ text records, t.readText (n.manifestPath dir) = some text ∧
      Manifest.ofText text = .ok records := by
  induction networks generalizing m with
  | nil => exact absurd hn List.not_mem_nil
  | cons k rest ih =>
    rw [Manifests.ofDir_cons] at h
    cases hk : Manifest.ofDir? t dir k with
    | error fault => rw [hk] at h; cases h
    | ok found =>
      rw [hk] at h
      rcases List.mem_cons.1 hn with rfl | hn
      · unfold Manifest.ofDir? at hk
        dsimp only at hk
        rw [if_pos hentry] at hk
        split at hk
        · cases hk
        · next text htext =>
          split at hk
          · next records hrecords => exact ⟨text, records, htext, hrecords⟩
          · cases hk
      · cases hrest : (Manifests.ofDir t dir rest).2 with
        | error fault => simp [hrest, Except.map] at h
        | ok m' => exact ih hrest hn

/-- Where a manifest is read from. -/
def Manifest.source (k : Manifest) : Network × String := (k.network, k.path)

theorem Manifest.sources_of_ofDir? {n : Network} {found : Option Manifest}
    (h : Manifest.ofDir? t dir n = .ok found) :
    found.toList.map Manifest.source =
      if t.hasEntry (n.manifestPath dir) then [(n, n.manifestPath dir)] else [] := by
  unfold Manifest.ofDir? at h
  dsimp only at h
  split at h
  · next hentry =>
    rw [if_pos hentry]
    split at h
    · cases h
    · split at h <;> cases h
      rfl
  · next hentry =>
    cases h
    rw [if_neg hentry]
    rfl

/-- **A manifest is read for each network that has one**, as often as the network is asked for. -/
theorem Manifests.sources_of_ofDir {m : Manifests}
    (h : (Manifests.ofDir t dir networks).2 = .ok m) :
    m.networks.map Manifest.source =
      (networks.filter fun n => t.hasEntry (n.manifestPath dir)).map fun n =>
        (n, n.manifestPath dir) := by
  induction networks generalizing m with
  | nil => cases h; rfl
  | cons n rest ih =>
    rw [Manifests.ofDir_cons] at h
    cases hn : Manifest.ofDir? t dir n with
    | error fault => rw [hn] at h; cases h
    | ok found =>
      rw [hn] at h
      cases hrest : (Manifests.ofDir t dir rest).2 with
      | error fault => simp [hrest, Except.map] at h
      | ok m' =>
        simp only [hrest, Except.map] at h
        cases h
        rw [List.map_append, Manifest.sources_of_ofDir? hn, ih hrest, List.filter_cons]
        split <;> rfl

theorem Manifests.networks_of_ofDir {m : Manifests}
    (h : (Manifests.ofDir t dir networks).2 = .ok m) :
    m.networks.map Manifest.network =
      networks.filter fun n => t.hasEntry (n.manifestPath dir) := by
  have hsources := congrArg (List.map Prod.fst) (Manifests.sources_of_ofDir h)
  rw [List.map_map, List.map_map] at hsources
  exact hsources.trans (List.map_id _)

theorem Manifests.path_of_ofDir {m : Manifests} (h : (Manifests.ofDir t dir networks).2 = .ok m)
    {k : Manifest} (hk : k ∈ m.networks) : ∃ n ∈ networks, k.path = n.manifestPath dir := by
  have hsource := List.mem_map_of_mem (f := Manifest.source) hk
  rw [Manifests.sources_of_ofDir h] at hsource
  obtain ⟨n, hn, he⟩ := List.mem_map.1 hsource
  exact ⟨n, (List.mem_filter.1 hn).1, (congrArg Prod.snd he).symm⟩

/-- **Reading succeeds**, with one manifest for each network that has one. -/
theorem Manifests.ofDir_networks (h : HasReadableManifests t dir networks) :
    ∃ log m, Manifests.ofDir t dir networks = (log, .ok m) ∧
      m.networks = networks.filterMap (t.manifest? dir) := by
  induction networks with
  | nil => exact ⟨[], ⟨[]⟩, rfl, rfl⟩
  | cons n rest ih =>
    obtain ⟨log, m, hm, hnetworks⟩ := ih fun n hn => h n (List.mem_cons_of_mem _ hn)
    have hn := Manifest.ofDir?_eq (h n List.mem_cons_self)
    refine ⟨Manifest.report n (t.manifest? dir n) :: log,
      ⟨(t.manifest? dir n).toList ++ m.networks⟩, ?_, ?_⟩
    · rw [Manifests.ofDir_cons, hn, hm]; rfl
    · cases hf : t.manifest? dir n <;> simp [hf, hnetworks]

/-- A network's records are those in its file, however often it is asked for. -/
theorem Manifests.recordsOf_eq {m : Manifests}
    (hm : m.networks = networks.filterMap (t.manifest? dir)) (n : Network) :
    m.recordsOf n =
      if n ∈ networks then ((t.manifest? dir n).map Manifest.records).getD [] else [] := by
  have hfind : m.networks.find? (fun k => k.network = n) =
      if n ∈ networks then t.manifest? dir n else none := by
    rw [hm]
    clear hm
    induction networks with
    | nil => rfl
    | cons k rest ih =>
      rw [List.filterMap_cons]
      cases hk : t.manifest? dir k with
      | none =>
        rw [ih]
        by_cases hkn : k = n
        · subst hkn; simp [hk]
        · have hnk : n ≠ k := fun e => hkn e.symm
          simp [hnk]
      | some f =>
        have hf := (FileTree.manifest?_eq_some hk).1
        by_cases hkn : k = n
        · subst hkn; simp [hf, hk]
        · have hnk : n ≠ k := fun e => hkn e.symm
          simp [hf, hkn, hnk, ih]
  unfold Manifests.recordsOf
  rw [hfind]
  split <;> rfl

/-- **A network's records are those that its document holds**, and a network that no manifest is
found for has none. -/
theorem Manifests.records_of_network (h : HasReadableManifests t dir networks) {m : Manifests}
    (hm : m.networks = networks.filterMap (t.manifest? dir)) (n : Network) :
    (n ∉ m.networks.map Manifest.network ∧ m.recordsOf n = []) ∨
      n ∈ m.networks.map Manifest.network ∧ ∃ v, t.manifestDocument? dir n = some v ∧
        AreReadFrom (recordDocuments v) (m.recordsOf n) := by
  have hrecords := Manifests.recordsOf_eq hm n
  -- A network has records if it was asked for and its manifest is there.
  by_cases hfound : ∃ k, n ∈ networks ∧ t.manifest? dir n = some k
  · obtain ⟨k, hn, hk⟩ := hfound
    obtain ⟨hnetwork, v, hv, hread⟩ := FileTree.manifest?_eq_some hk
    have hentry : t.hasEntry (n.manifestPath dir) = true := by
      by_contra hnot
      rw [FileTree.manifestDocument?_of_not_hasEntry hnot] at hv; cases hv
    obtain ⟨v', hv', hdocs⟩ := h n hn hentry
    cases hv.symm.trans hv'
    obtain ⟨records, hrecords', hall⟩ := readRecords_of_documents hdocs
    cases hread.symm.trans hrecords'
    refine Or.inr ⟨?_, v, hv, ?_⟩
    · rw [hm]
      exact List.mem_map.2 ⟨k, List.mem_filterMap.2 ⟨n, hn, hk⟩, hnetwork⟩
    · rw [hrecords, if_pos hn, hk]; exact hall
  · refine Or.inl ⟨?_, ?_⟩
    · rw [hm]
      intro hmem
      obtain ⟨k, hk, hnetwork⟩ := List.mem_map.1 hmem
      obtain ⟨n', hn', hk⟩ := List.mem_filterMap.1 hk
      rw [(FileTree.manifest?_eq_some hk).1] at hnetwork
      exact hfound ⟨k, hnetwork ▸ hn', hnetwork ▸ hk⟩
    · rw [hrecords]
      split
      · cases hk : t.manifest? dir n with
        | none => rfl
        | some k => exact absurd ⟨k, ‹_›, hk⟩ hfound
      · rfl

end TypedBindings
