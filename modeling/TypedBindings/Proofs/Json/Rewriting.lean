import TypedBindings.Proofs.Json.Merged
import TypedBindings.Proofs.Json.Record
import TypedBindings.Proofs.Results

/-!
# Records that are read back

A record that is written as an object reads back if each of its fields is read back from the one
member of its name. What a reader ensures of the value it gives follows from what its fields ensure,
in the object form and in the array form alike.

* `asList_write`, `asMap_write`: lists and maps read back entry by entry.
* `ReadsFrom`: the fields of a record are read, each from the one member of its name.
* `ReadsFrom.readObject`: then the record is, if what belongs to no field can be passed over.
* `Record.Ensures`: what a record says about the values it gives, if its document is such and such.
-/

namespace TypedBindings.Json

variable {α β : Type} {item : Reader α}

/-- A plain value can be passed over. -/
theorem IsPlain.isPassable {v : Json} (hv : v.IsPlain) : v.isPassable = true := by
  have hskip := hv.isSkippable
  cases v with
  | defect kind => exact (hv.of_leaf rfl).elim
  | _ => exact hskip

/-! ## Lists and maps -/

/-- A list is read back if its items are. -/
theorem asList_write {write : α → Json} {xs : List α} (h : ∀ x ∈ xs, item (write x) = .ok x) :
    asList item (.arr (xs.map write)) = .ok xs := by
  change (xs.map write).mapM item = .ok xs
  rw [mapM_eq_ok_iff, List.forall₂_map_left_iff, List.forall₂_same]
  exact h

theorem foldlM_put_write {write : α → Json} {m : List (String × α)}
    (h : ∀ e ∈ m, item (write e.2) = .ok e.2) :
    ∀ done : List (String × α), ((done ++ m).map Prod.fst).Nodup →
      (m.map fun e => (e.1, write e.2)).foldlM
        (fun done (k, v) => (item v).map fun x => OrderedMap.put k x done) done =
        .ok (done ++ m) := by
  induction m with
  | nil => intro done _; rw [List.append_nil]; rfl
  | cons e m ih =>
    obtain ⟨k, x⟩ := e
    intro done hnodup
    -- what is read next is new, so it is put behind what was read before
    have hx := h (k, x) List.mem_cons_self
    rw [List.append_cons] at hnodup ⊢
    have hnew : k ∉ done.map Prod.fst := by
      intro hk
      rw [List.map_append, List.map_append, List.append_assoc, List.nodup_append] at hnodup
      exact hnodup.2.2 k hk k (by simp) rfl
    rw [← ih (fun e he => h e (List.mem_cons_of_mem _ he)) _ hnodup, List.map_cons,
      List.foldlM_cons]
    dsimp only at hx ⊢
    rw [hx, ← OrderedMap.put_of_not_mem hnew]
    rfl

/-- A map in which no key stands twice and every value has a property. -/
structure IsMapWith (q : α → Prop) (m : List (String × α)) : Prop where
  nodup : (m.map Prod.fst).Nodup
  values : ∀ e ∈ m, q e.2

/-- A map is read back if its values are. -/
theorem asMap_write {q : α → Prop} {m : List (String × α)} (hm : IsMapWith q m) (write : α → Json)
    (h : ∀ x, q x → item (write x) = .ok x) :
    asMap item (.obj (m.map fun e => (e.1, write e.2))) = .ok m :=
  foldlM_put_write (fun e he => h e.2 (hm.values e he)) [] hm.nodup

theorem IsMapWith.isTidy {q : α → Prop} {m : List (String × α)} (hm : IsMapWith q m)
    {write : α → Json} (h : ∀ x, q x → (write x).IsTidy) :
    IsTidy (.obj (m.map fun e => (e.1, write e.2))) := by
  have hkeys : (m.map fun e => (e.1, write e.2)).map Prod.fst = m.map Prod.fst := List.map_map
  exact .obj (hkeys ▸ hm.nodup) (List.forall_mem_map.2 fun e he => h e.2 (hm.values e he))

namespace Record

/-! ## Fields -/

section

variable {name : String} {members : List (String × Json)} {v : Json} {a : α} {o : Option α}

/-- A member that stands once is found, wherever it stands. -/
theorem fieldOr_of_filter (hv : members.filter (·.1 = name) = [(name, v)]) (hitem : item v = .ok a)
    (absent : Except Fault α) : fieldOr name item absent members = .ok a := by
  have hocc := map_snd_occurrences name members 0
  rw [hv, List.map_singleton, List.map_eq_singleton_iff] at hocc
  obtain ⟨⟨i, w⟩, hocc, rfl⟩ := hocc
  unfold fieldOr
  rw [hocc]
  simp [hitem, Except.mapError]

/-- A member that is left out has its default. -/
theorem fieldOr_of_filter_nil (hv : members.filter (·.1 = name) = []) {absent : Except Fault α}
    (habsent : absent = .ok a) : fieldOr name item absent members = .ok a := by
  have hocc := map_snd_occurrences name members 0
  rw [hv, List.map_nil, List.map_eq_nil_iff] at hocc
  unfold fieldOr
  rw [hocc, habsent]
  rfl

/-- The fields of a record are read from the members of an object. -/
def ReadsFrom (record : Record α) (members : List (String × Json)) (a : α) : Prop :=
  record.ofMembers members = .ok a

/-- A required member that stands once. -/
theorem ReadsFrom.required (hv : members.filter (·.1 = name) = [(name, v)])
    (hitem : item v = .ok a) : (required name item).ReadsFrom members a :=
  fieldOr_of_filter hv hitem _

theorem ReadsFrom.defaulted {value : α} (hv : members.filter (·.1 = name) = [(name, v)])
    (hitem : item v = .ok a) : (defaulted name item value).ReadsFrom members a :=
  fieldOr_of_filter hv hitem _

/-- A field that is there, and may be `null`. -/
theorem ReadsFrom.optional (hv : members.filter (·.1 = name) = [(name, v)])
    (hitem : asOption item v = .ok o) : (optional name item).ReadsFrom members o :=
  fieldOr_of_filter hv hitem _

/-- A field that is there if it has a value. -/
theorem ReadsFrom.optional_of_toList {write : α → Json}
    (hv : members.filter (·.1 = name) = (o.map fun a => (name, write a)).toList)
    (hitem : ∀ a, asOption item (write a) = .ok (some a)) :
    (Record.optional name item).ReadsFrom members o := by
  cases o with
  | none => exact fieldOr_of_filter_nil hv rfl
  | some a => exact fieldOr_of_filter hv (hitem a) _

theorem ReadsFrom.map {x : Record α} (hx : x.ReadsFrom members a) (g : α → β) :
    (g <$> x).ReadsFrom members (g a) := by
  unfold ReadsFrom at hx ⊢
  rw [ofMembers_map, hx]; rfl

/-- Members that are read one after the other. -/
theorem ReadsFrom.seq {f : Record (α → β)} {x : Record α} {g : α → β}
    (hf : f.ReadsFrom members g) (hx : x.ReadsFrom members a) :
    (f <*> x).ReadsFrom members (g a) := by
  unfold ReadsFrom at hf hx ⊢
  rw [ofMembers_seq, hf, hx]; rfl

end

/-! ## Records -/

section

variable {record : Record α} {members : List (String × Json)} {a : α}

/-- Members that no reader asks for are passed over. -/
theorem firstTorn_eq_none {names : List String}
    (h : ∀ m ∈ members, m.1 ∉ names → m.2.isPassable = true) (start : Nat) :
    firstTorn names start members = none := by
  induction members generalizing start with
  | nil => rfl
  | cons m rest ih =>
    obtain ⟨k, v⟩ := m
    rw [firstTorn, if_neg, ih fun m hm => h m (List.mem_cons_of_mem _ hm)]
    rintro ⟨hk, hv⟩
    have hpass := h (k, v) List.mem_cons_self hk
    simp [hpass] at hv

/-- A record is read if its fields are, and what belongs to no field can be passed over. -/
theorem ReadsFrom.readObject (h : record.ReadsFrom members a)
    (hothers : ∀ m ∈ members, m.1 ∉ record.names → m.2.isPassable = true) :
    record.readObject (.obj members) = .ok a := by
  unfold ReadsFrom at h
  unfold Record.readObject
  dsimp only
  rw [firstTorn_eq_none hothers, h]
  rfl

/-- A record that has no other members. -/
theorem ReadsFrom.read (h : record.ReadsFrom members a)
    (hnames : (members.all fun m => m.1 ∈ record.names) = true) :
    record.read (.obj members) = .ok a :=
  h.readObject fun m hm hname =>
    absurd (of_decide_eq_true (List.all_eq_true.1 hnames m hm)) hname

end

/-! ## What a record ensures -/

/-- What a record gives has a property, if each part of its document has one. -/
structure Ensures (record : Record α) (p : Json → Prop) (q : α → Prop) : Prop where
  ofMembers : ∀ {members a}, (∀ m ∈ members, p m.2) → record.ofMembers members = .ok a → q a
  ofItems : ∀ {items a rest}, (∀ v ∈ items, p v) → record.ofItems items = .ok (a, rest) →
    q a ∧ ∀ v ∈ rest, p v

section

variable {p : Json → Prop} {q : α → Prop} {r : β → Prop} {name : String}

/-- What two parts ensure holds of what is made of both. -/
theorem Ensures.seq {f : Record (α → β)} {x : Record α}
    (hf : f.Ensures p fun g => ∀ a, q a → r (g a)) (hx : x.Ensures p q) :
    (f <*> x).Ensures p r where
  ofMembers hp h := by
    obtain ⟨g, a, hg, ha, rfl⟩ := combine_eq_ok.1 h
    exact hf.ofMembers hp hg a (hx.ofMembers hp ha)
  ofItems hp h := by
    obtain ⟨⟨g, items⟩, hg, h⟩ := exists_of_bind_eq_ok h
    obtain ⟨⟨a, items'⟩, ha, h⟩ := exists_of_bind_eq_ok h
    cases h
    obtain ⟨hg, hitems⟩ := hf.ofItems hp hg
    exact (hx.ofItems hitems ha).imp_left (hg a)

theorem Ensures.map {x : Record α} (hx : x.Ensures p q) {g : α → β} (hg : ∀ a, q a → r (g a)) :
    (g <$> x).Ensures p r :=
  have hpure : (pure g : Record (α → β)).Ensures p fun g => ∀ a, q a → r (g a) :=
    ⟨fun _ h => by cases h; exact hg, fun hp h => by cases h; exact ⟨hg, hp⟩⟩
  hpure.seq hx

/-- A member ensures what its reader does, or what its default has. -/
theorem fieldOr_ensures (hitem : ∀ v a, p v → item v = .ok a → q a) {absent : Except Fault α}
    (habsent : ∀ a, absent = .ok a → q a) {members : List (String × Json)} {a : α}
    (hp : ∀ m ∈ members, p m.2) (h : fieldOr name item absent members = .ok a) : q a := by
  rcases fieldOr_eq_ok h with ⟨-, habs⟩ | ⟨v, hv, ha⟩
  · exact habsent a habs
  · have hmem := OrderedMap.mem_of_mem_ofList (OrderedMap.mem_of_lookup hv)
    exact hitem v a (hp _ hmem) ha

/-- A field that is read off the front of the items. -/
theorem item_ensures (hitem : ∀ v a, p v → item v = .ok a → q a) {v : Json} {items rest : List Json}
    {a : α} (hp : ∀ w ∈ v :: items, p w)
    (h : (item v >>= fun b => pure (b, items)) = .ok (a, rest)) : q a ∧ ∀ w ∈ rest, p w := by
  obtain ⟨b, hb, h⟩ := exists_of_bind_eq_ok h
  cases h
  obtain ⟨hv, hrest⟩ := List.forall_mem_cons.1 hp
  exact ⟨hitem v _ hv hb, hrest⟩

theorem Ensures.required (hitem : ∀ v a, p v → item v = .ok a → q a) :
    (required name item).Ensures p q where
  ofMembers hp h := fieldOr_ensures hitem (fun _ h => by cases h) hp h
  ofItems {items a rest} hp h := by
    cases items with
    | nil => cases h
    | cons v items => exact item_ensures hitem hp h

theorem Ensures.defaulted (hitem : ∀ v a, p v → item v = .ok a → q a) {value : α}
    (hvalue : q value) : (defaulted name item value).Ensures p q where
  ofMembers hp h := fieldOr_ensures hitem (fun _ h => by cases h; exact hvalue) hp h
  ofItems {items a rest} hp h := by
    cases items with
    | nil => cases h; exact ⟨hvalue, hp⟩
    | cons v items => exact item_ensures hitem hp h

theorem Ensures.optional {q : Option α → Prop}
    (hitem : ∀ v o, p v → asOption item v = .ok o → q o) (hnone : q none) :
    (Record.optional name item).Ensures p q :=
  Ensures.defaulted hitem hnone

/-- What a record ensures holds of what is read in either form. -/
theorem Ensures.read {record : Record α} (h : record.Ensures p q) {v : Json} {a : α}
    (hp : ∀ w ∈ v.parts, p w) (hread : record.read v = .ok a) : q a := by
  cases v with
  | arr items =>
    obtain ⟨⟨b, rest⟩, hb, hrest⟩ := exists_of_bind_eq_ok hread
    cases rest with
    | nil => cases hrest; exact (h.ofItems hp hb).1
    | cons w rest => cases hrest
  | obj members =>
    exact h.ofMembers (List.forall_mem_map.1 hp) (ofMembers_of_readObject hread)
  | _ => cases hread

/-- The values of a list are read each from an item. -/
theorem asList_ensures {v : Json} {as : List α} (hitem : ∀ v a, p v → item v = .ok a → q a)
    (hp : ∀ w ∈ v.parts, p w) (h : asList item v = .ok as) : ∀ a ∈ as, q a := by
  cases v with
  | arr items =>
    change items.mapM item = .ok as at h
    change ∀ w ∈ items, p w at hp
    have hread : List.Forall₂ (fun w a => p w ∧ item w = .ok a) items as :=
      (List.forall₂_and_left items as).2 ⟨hp, mapM_eq_ok_iff.1 h⟩
    have hgood : List.Forall₂ (fun a _ => q a ∧ True) as items :=
      .flip (hread.imp fun w a hw => ⟨hitem w a hw.1 hw.2, trivial⟩)
    exact ((List.forall₂_and_left as items).1 hgood).1
  | _ => cases h

/-- The entries of a map are read each from a member. -/
theorem asMap_ensures {v : Json} {m : List (String × α)}
    (hitem : ∀ v a, p v → item v = .ok a → q a) (hp : ∀ w ∈ v.parts, p w)
    (h : asMap item v = .ok m) : IsMapWith q m := by
  cases v with
  | obj members =>
    have hnodup := nodup_keys_of_asMap h
    refine ⟨hnodup, fun e he => ?_⟩
    -- what stands under a name was read from the last member that has it
    have hlookup := OrderedMap.lookup_of_mem hnodup he
    rcases asMap_eq_ok h e.1 with ⟨hnone, -⟩ | ⟨a, v, ha, hv, hread⟩
    · rw [hlookup] at hnone; cases hnone
    · rw [hlookup] at ha
      cases ha
      have hmem := OrderedMap.mem_of_mem_ofList (OrderedMap.mem_of_lookup hv)
      exact hitem v _ (List.forall_mem_map.1 hp _ hmem) hread
  | _ => cases h

/-- A field for a map that may be missing. -/
theorem Ensures.defaultedMap (hitem : ∀ v a, IsPlain v → item v = .ok a → q a) :
    (Record.defaulted name (asMap item) []).Ensures IsPlain (IsMapWith q) :=
  .defaulted (fun _ _ hv h => asMap_ensures hitem hv.parts h)
    ⟨List.nodup_nil, List.forall_mem_nil _⟩

end

end Record

end TypedBindings.Json
