import TypedBindings.Proofs.Deployment.Directory
import TypedBindings.Proofs.Deployment.Merging

/-!
# The order in which networks are asked for

The manifests of a directory are read once for each time that a network is asked for. What is read
has one block of records for each time, and the selection and the schema are made of these blocks.

* `Manifests.ofDir_eq_ok_iff`: when reading succeeds, and what it gives.
* `Manifests.mem_records`, `Manifests.load_congr`: the records, and what is selected among them,
  depend on the set of the networks.
* `Manifests.schema_repeated`: a network that comes again changes nothing in the schema.
* `Manifests.same_networks`: the deployments depend on the set of the networks.
-/

namespace TypedBindings

/-- Required ids and optional ids are the same sets. -/
structure MergedIds.HasSameIds (a b : MergedIds) : Prop where
  required : ∀ id, id ∈ a.required ↔ id ∈ b.required
  optional : ∀ id, id ∈ a.optional ↔ id ∈ b.optional

variable {t : FileTree} {dir : String} {networks : List Network}

/-- What is found of a network is the manifest that its document holds. -/
theorem Manifest.ofDir?_eq_ok {n : Network} {found : Option Manifest}
    (h : Manifest.ofDir? t dir n = .ok found) : found = t.manifest? dir n := by
  unfold Manifest.ofDir? at h
  dsimp only at h
  split at h
  · next hentry =>
    split at h
    · cases h
    · next text htext =>
      split at h
      · next records hrecords =>
        cases h
        unfold Manifest.ofText at hrecords
        split at hrecords
        · next v hv =>
          have hdoc : t.manifestDocument? dir n = some v := by
            unfold FileTree.manifestDocument?; rw [htext]; exact hv
          unfold FileTree.manifest?
          rw [hdoc, Option.bind_some, hrecords]; rfl
        · cases hrecords
      · cases h
  · next hentry =>
    cases h
    unfold FileTree.manifest?
    rw [FileTree.manifestDocument?_of_not_hasEntry hentry]; rfl

/-- A network's manifest can be read, or there is none. -/
def FileTree.IsReadable (t : FileTree) (dir : String) (n : Network) : Prop :=
  Manifest.ofDir? t dir n = .ok (t.manifest? dir n)

theorem FileTree.filterMap_manifest?_cons (n : Network) (rest : List Network) :
    (n :: rest).filterMap (t.manifest? dir) =
      (t.manifest? dir n).toList ++ rest.filterMap (t.manifest? dir) := by
  rw [List.filterMap_cons]; cases t.manifest? dir n <;> rfl

/-- **When reading succeeds**, and what it gives: a manifest for each time that a network which has
one is asked for. -/
theorem Manifests.ofDir_eq_ok_iff {m : Manifests} :
    (Manifests.ofDir t dir networks).2 = .ok m ↔
      (∀ n ∈ networks, t.IsReadable dir n) ∧
        m.networks = networks.filterMap (t.manifest? dir) := by
  -- Manifests are read in the order of the networks, and the first that is not readable ends it.
  induction networks generalizing m with
  | nil =>
    constructor
    · intro h; cases h; exact ⟨List.forall_mem_nil _, rfl⟩
    · rintro ⟨-, hm⟩
      obtain ⟨networks⟩ := m
      cases hm; rfl
  | cons n rest ih =>
    rw [Manifests.ofDir_cons, List.forall_mem_cons, FileTree.filterMap_manifest?_cons]
    cases hn : Manifest.ofDir? t dir n with
    | error fault =>
      constructor
      · intro h; cases h
      · rintro ⟨⟨hread, -⟩, -⟩
        cases hn.symm.trans hread
    | ok found =>
      obtain rfl := Manifest.ofDir?_eq_ok hn
      constructor
      · intro h
        cases hrest : (Manifests.ofDir t dir rest).2 with
        | error fault => simp [hrest, Except.map] at h
        | ok m' =>
          obtain ⟨hread, hm'⟩ := ih.1 hrest
          simp only [hrest, Except.map, Except.ok.injEq] at h
          subst h
          exact ⟨⟨hn, hread⟩, by rw [hm']⟩
      · rintro ⟨⟨-, hread⟩, hm⟩
        have hrest : (Manifests.ofDir t dir rest).2 = .ok ⟨rest.filterMap (t.manifest? dir)⟩ :=
          ih.2 ⟨hread, rfl⟩
        obtain ⟨networks⟩ := m
        simp only [hrest, Except.map, Except.ok.injEq, Manifests.mk.injEq]
        exact hm.symm

/-- Networks that are asked for anyhow can be asked for in another way. -/
theorem Manifests.exists_ofDir {m : Manifests} {networks' : List Network}
    (h : ∀ n ∈ networks', n ∈ networks) (hm : (Manifests.ofDir t dir networks).2 = .ok m) :
    ∃ m', (Manifests.ofDir t dir networks').2 = .ok m' :=
  ⟨⟨networks'.filterMap (t.manifest? dir)⟩,
    ofDir_eq_ok_iff.2 ⟨fun n hn => (ofDir_eq_ok_iff.1 hm).1 n (h n hn), rfl⟩⟩

section

variable {networks' : List Network} {m m' : Manifests}

theorem Manifests.mem_records (hm : m.networks = networks.filterMap (t.manifest? dir))
    {r : DeployerRecord} :
    r ∈ m.records ↔ ∃ n ∈ networks, ∃ k, t.manifest? dir n = some k ∧ r ∈ k.records := by
  unfold Manifests.records
  simp only [hm, List.mem_flatMap, List.mem_filterMap]
  constructor
  · rintro ⟨k, ⟨n, hn, hk⟩, hr⟩; exact ⟨n, hn, k, hk, hr⟩
  · rintro ⟨n, hn, k, hk, hr⟩; exact ⟨k, ⟨n, hn, hk⟩, hr⟩

/-- What is selected depends on the set of the networks. -/
theorem Manifests.load_congr (h : ∀ n, n ∈ networks ↔ n ∈ networks')
    (hm : m.networks = networks.filterMap (t.manifest? dir))
    (hm' : m'.networks = networks'.filterMap (t.manifest? dir)) (n : Network)
    (deployer : Option String) : m.load n deployer = m'.load n deployer := by
  have hrecords : m.recordsOf n = m'.recordsOf n := by
    rw [recordsOf_eq hm, recordsOf_eq hm']
    simp only [h]
  unfold Manifests.load Manifests.select
  rw [hrecords]

/-- The ids of records, by what each has: as sets they depend on the set of the records. -/
theorem MergedIds.hasSameIds_merge {records records' : List DeployerRecord}
    (h : ∀ r, r ∈ records ↔ r ∈ records') (ids : DeployerRecord → List String) :
    HasSameIds (.merge (records.map ids)) (.merge (records'.map ids)) := by
  have hsets : ∀ set, set ∈ records.map ids ↔ set ∈ records'.map ids := by
    simp only [List.mem_map, h, implies_true]
  exact ⟨fun _ => mem_required_congr hsets, fun _ => mem_optional_congr hsets⟩

/-- The schema does not change when records that have come before come again. -/
theorem Schema.ofRecords_append_repeated {records block : List DeployerRecord}
    (h : ∀ r ∈ block, r ∈ records) (after : List DeployerRecord) :
    ofRecords (records ++ block ++ after) = ofRecords (records ++ after) := by
  have hsets : ∀ ids : DeployerRecord → List String, ∀ set ∈ block.map ids,
      set ∈ records.map ids := by
    intro ids set hset
    obtain ⟨r, hr, rfl⟩ := List.mem_map.1 hset
    exact List.mem_map_of_mem (h r hr)
  unfold ofRecords
  simp only [List.map_append, MergedIds.merge_append_repeated (hsets _)]

/-- The schema does not change when a network that has come before comes again. -/
theorem Manifests.schema_repeated {before after : List Network} {n : Network} (hn : n ∈ before)
    (hm : m.networks = (before ++ after).filterMap (t.manifest? dir))
    (hm' : m'.networks = (before ++ n :: after).filterMap (t.manifest? dir)) :
    m'.schema = m.schema := by
  -- each network gives a block of records, and the new block repeats records in front of it
  have hrecords : m.records =
      (⟨before.filterMap (t.manifest? dir)⟩ : Manifests).records ++
        (⟨after.filterMap (t.manifest? dir)⟩ : Manifests).records := by
    unfold Manifests.records
    rw [hm, List.filterMap_append, List.flatMap_append]
  have hrecords' : m'.records =
      (⟨before.filterMap (t.manifest? dir)⟩ : Manifests).records ++
        (⟨(t.manifest? dir n).toList⟩ : Manifests).records ++
          (⟨after.filterMap (t.manifest? dir)⟩ : Manifests).records := by
    unfold Manifests.records
    rw [hm', List.filterMap_append, FileTree.filterMap_manifest?_cons, List.flatMap_append,
      List.flatMap_append, List.append_assoc]
  have hblock : ∀ r ∈ (⟨(t.manifest? dir n).toList⟩ : Manifests).records,
      r ∈ (⟨before.filterMap (t.manifest? dir)⟩ : Manifests).records := by
    intro r hr
    obtain ⟨k, hk, hr⟩ := List.mem_flatMap.1 hr
    exact (mem_records rfl).2 ⟨n, hn, k, Option.mem_toList.1 hk, hr⟩
  unfold Manifests.schema
  rw [hrecords, hrecords', Schema.ofRecords_append_repeated hblock]

end

/-- **Deployments depend on the set of the networks.** Networks that are asked for in another order, or
more often, are read if they were read before. What `load` selects is the same, and so are the
required and the optional ids of contracts and of scripts as sets. A network that comes again after
it has come before leaves the whole schema as it is, the order of the ids included. -/
theorem Manifests.same_networks (t : FileTree) (dir : String) :
    (∀ networks networks' m, (∀ n, n ∈ networks ↔ n ∈ networks') →
      (Manifests.ofDir t dir networks).2 = .ok m →
      ∃ m', (Manifests.ofDir t dir networks').2 = .ok m' ∧
        (∀ n deployer, m.load n deployer = m'.load n deployer) ∧
        m.schema.contracts.HasSameIds m'.schema.contracts ∧
        m.schema.scripts.HasSameIds m'.schema.scripts) ∧
    ∀ before n after m, n ∈ before → (Manifests.ofDir t dir (before ++ after)).2 = .ok m →
      ∃ m', (Manifests.ofDir t dir (before ++ n :: after)).2 = .ok m' ∧ m'.schema = m.schema := by
  constructor
  · intro networks networks' m h hm
    obtain ⟨m', hm'⟩ := exists_ofDir (fun n => (h n).2) hm
    have hfound := (ofDir_eq_ok_iff.1 hm).2
    have hfound' := (ofDir_eq_ok_iff.1 hm').2
    have hrecords : ∀ r, r ∈ m.records ↔ r ∈ m'.records := by
      simp only [mem_records hfound, mem_records hfound', h, implies_true]
    exact ⟨m', hm', load_congr h hfound hfound',
      MergedIds.hasSameIds_merge hrecords fun r => r.contracts.map Prod.fst,
      MergedIds.hasSameIds_merge hrecords fun r => r.scripts.map Prod.fst⟩
  · intro before n after m hn hm
    have hsame : ∀ k ∈ before ++ n :: after, k ∈ before ++ after := by
      simp only [List.mem_append, List.mem_cons]
      rintro k (hk | rfl | hk)
      · exact Or.inl hk
      · exact Or.inl hn
      · exact Or.inr hk
    obtain ⟨m', hm'⟩ := exists_ofDir hsame hm
    exact ⟨m', hm', schema_repeated hn (ofDir_eq_ok_iff.1 hm).2 (ofDir_eq_ok_iff.1 hm').2⟩

/-- One deployer who has run a script, and one who has not. -/
def scriptAndNoneText : String :=
  "[\x7b\"deployerAddress\":\"A\",\"scripts\":\x7b\"Main\":\x7b\x7d\x7d\x7d," ++
    "\x7b\"deployerAddress\":\"B\"\x7d]"

/-- One deployer who has run two scripts. -/
def twoScriptsText : String :=
  "\x7b\"deployerAddress\":\"C\",\"scripts\":\x7b\"Other\":\x7b\x7d,\"Main\":\x7b\x7d\x7d\x7d"

def twoNetworksTree : FileTree where
  entries := [(["work", ".deployments.testnet.json"], .file (some scriptAndNoneText)),
    (["work", ".deployments.devnet.json"], .file (some twoScriptsText))]
  workDir := ["work"]

theorem Manifests.same_networks_two :
    ∃ m, (Manifests.ofDir twoNetworksTree "." ([.testnet] ++ [.devnet])).2 = .ok m ∧
      (∃ m', (Manifests.ofDir twoNetworksTree "." [.devnet, .testnet, .devnet]).2 = .ok m' ∧
        (∀ n deployer, m.load n deployer = m'.load n deployer) ∧
        m.schema.contracts.HasSameIds m'.schema.contracts ∧
        m.schema.scripts.HasSameIds m'.schema.scripts) ∧
      ∃ m', (Manifests.ofDir twoNetworksTree "." ([.testnet] ++ .testnet :: [.devnet])).2 =
          .ok m' ∧ m'.schema = m.schema := by
  have hread : (Manifests.ofDir twoNetworksTree "."
      ([.testnet] ++ [.devnet])).2.toOption.isSome = true := by decide +kernel
  have hsame : ∀ n, n ∈ [Network.testnet] ++ [.devnet] ↔ n ∈ [.devnet, .testnet, .devnet] := by
    intro n; cases n <;> decide
  cases hm : (Manifests.ofDir twoNetworksTree "." ([.testnet] ++ [.devnet])).2 with
  | error fault => rw [hm] at hread; cases hread
  | ok m =>
    obtain ⟨horder, hrepeated⟩ := same_networks twoNetworksTree "."
    exact ⟨m, rfl, horder _ _ m hsame hm, hrepeated _ _ _ m (List.mem_singleton_self _) hm⟩

end TypedBindings
