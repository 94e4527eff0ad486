import TypedBindings.Json.Record
import TypedBindings.Proofs.OrderedMap

/-!
# What a record that was read says about its document

A record that is read from an object has read each of its fields, and a field is read from the one
member of its name or, if there is none, taken from its default.

* `combine_eq_ok`, `ofMembers_of_readObject`: every field was read.
* `fieldOr_eq_ok`: where a field's value comes from.
* `asMap_eq_ok`: the entries of a map are read from the members that count.
-/

namespace TypedBindings.Json

/-- The member of an object that counts: the last one of its name. -/
def field? (name : String) : Json → Option Json
  | .obj members => (OrderedMap.ofList members).lookup name
  | _ => none

namespace Record

variable {α β : Type}

/-- Both parts of a record have to be read. -/
theorem combine_eq_ok {f : Except Located (α → β)} {x : Except Located α} {b : β} :
    combine f x = .ok b ↔ ∃ g a, f = .ok g ∧ x = .ok a ∧ b = g a := by
  cases f with
  | error e => cases x <;> simp [combine]
  | ok g => cases x <;> simp [combine, eq_comm]

@[simp] theorem ofMembers_seq (f : Record (α → β)) (x : Record α)
    (members : List (String × Json)) :
    (f <*> x).ofMembers members = combine (f.ofMembers members) (x.ofMembers members) := rfl

@[simp] theorem ofMembers_map (g : α → β) (x : Record α) (members : List (String × Json)) :
    (g <$> x).ofMembers members = combine (.ok g) (x.ofMembers members) := rfl

theorem ofMembers_of_readObject {record : Record α} {members : List (String × Json)} {a : α}
    (h : record.readObject (.obj members) = .ok a) : record.ofMembers members = .ok a := by
  unfold readObject at h
  cases hc : firstTorn record.names 0 members with
  | some i => cases hm : record.ofMembers members <;> simp [hc, hm, combine, Except.mapError] at h
  | none =>
    cases hm : record.ofMembers members with
    | error e => simp [hc, hm, combine, Except.mapError] at h
    | ok b => simpa [hc, hm, combine, Except.mapError] using h

/-- The occurrences of a name are the members of that name. -/
theorem map_snd_occurrences (name : String) (members : List (String × Json)) (start : Nat) :
    (occurrences name start members).map Prod.snd =
      (members.filter (·.1 = name)).map Prod.snd := by
  induction members generalizing start with
  | nil => rfl
  | cons m rest ih =>
    obtain ⟨k, v⟩ := m
    by_cases h : k = name <;> simp [occurrences, h, ih]

/-- **Where a field's value comes from.** A field that was read has no member and its default, or
one member and the value of that. -/
theorem fieldOr_eq_ok {name : String} {item : Reader α} {absent : Except Fault α}
    {members : List (String × Json)} {a : α} (h : fieldOr name item absent members = .ok a) :
    ((OrderedMap.ofList members).lookup name = none ∧ absent = .ok a) ∨
      ∃ v, (OrderedMap.ofList members).lookup name = some v ∧ item v = .ok a := by
  have hocc := map_snd_occurrences name members 0
  rw [OrderedMap.lookup_ofList, ← List.getLast?_map, ← hocc]
  unfold fieldOr at h
  cases ho : occurrences name 0 members with
  | nil =>
    rw [ho] at h
    cases absent with
    | error e => simp [Except.mapError] at h
    | ok b => left; simpa [Except.mapError] using h
  | cons o rest =>
    obtain ⟨i, v⟩ := o
    cases rest with
    | nil =>
      rw [ho] at h
      right
      cases hv : item v with
      | error e => simp [hv, Except.mapError] at h
      | ok b => exact ⟨v, by simp, by simpa [hv, Except.mapError] using h⟩
    | cons o' rest => rw [ho] at h; cases hv : item v <;> simp [hv] at h

/-- A required member was there, and its last value was read. -/
theorem required_eq_ok {name : String} {item : Reader α} {members : List (String × Json)} {a : α}
    (h : (required name item).ofMembers members = .ok a) :
    ∃ v, (OrderedMap.ofList members).lookup name = some v ∧ item v = .ok a := by
  rcases fieldOr_eq_ok h with ⟨-, habs⟩ | hv
  · cases habs
  · exact hv

/-- A member with a default was left out, or its last value was read. -/
theorem defaulted_eq_ok {name : String} {item : Reader α} {value : α}
    {members : List (String × Json)} {a : α}
    (h : (defaulted name item value).ofMembers members = .ok a) :
    ((OrderedMap.ofList members).lookup name = none ∧ a = value) ∨
      ∃ v, (OrderedMap.ofList members).lookup name = some v ∧ item v = .ok a := by
  rcases fieldOr_eq_ok h with ⟨hn, habs⟩ | hv
  · cases habs; exact Or.inl ⟨hn, rfl⟩
  · exact Or.inr hv

/-! ## Maps -/

/-- Every entry of a map is read from the entry of another one. -/
def ReadsEach (item : Reader α) (read : List (String × α)) (members : List (String × Json)) :
    Prop :=
  ∀ k, (read.lookup k = none ∧ members.lookup k = none) ∨
    ∃ x v, read.lookup k = some x ∧ members.lookup k = some v ∧ item v = .ok x

/-- Reading an entry and putting it into the map go together. -/
theorem ReadsEach.put {item : Reader α} {read : List (String × α)}
    {members : List (String × Json)} (h : ReadsEach item read members) {v : Json} {x : α}
    (hv : item v = .ok x) (key : String) :
    ReadsEach item (OrderedMap.put key x read) (OrderedMap.put key v members) := by
  intro k
  rw [OrderedMap.lookup_put, OrderedMap.lookup_put]
  by_cases hk : k = key
  · rw [if_pos hk, if_pos hk]; exact Or.inr ⟨x, v, rfl, rfl, hv⟩
  · rw [if_neg hk, if_neg hk]; exact h k

/-- Reading on keeps what was read in step with the members that it was read from. -/
theorem ReadsEach.fold {item : Reader α} {members : List (String × Json)} {m : List (String × α)} :
    ∀ {read : List (String × α)} {done : List (String × Json)}, ReadsEach item read done →
      members.foldlM (fun read (k, v) => (item v).map fun x => OrderedMap.put k x read) read =
        .ok m →
      ReadsEach item m (members.foldl (fun done (k, v) => OrderedMap.put k v done) done) := by
  induction members with
  | nil => intro read done hr hm; cases hm; exact hr
  | cons e rest ih =>
    obtain ⟨k, v⟩ := e
    intro read done hr hm
    rw [List.foldlM_cons] at hm
    dsimp only at hm
    cases hv : item v with
    | error e => rw [hv] at hm; cases hm
    | ok x =>
      rw [hv] at hm
      exact ih (hr.put hv k) hm

/-- A map that was read has no key twice. -/
theorem nodup_keys_of_asMap {item : Reader α} {members : List (String × Json)}
    {m : List (String × α)} (h : asMap item (.obj members) = .ok m) : (m.map Prod.fst).Nodup := by
  have hfold : ∀ read : List (String × α), (read.map Prod.fst).Nodup →
      members.foldlM (fun read (k, v) => (item v).map fun x => OrderedMap.put k x read) read =
        .ok m → (m.map Prod.fst).Nodup := by
    clear h
    induction members with
    | nil => intro read hread hm; cases hm; exact hread
    | cons e rest ih =>
      intro read hread hm
      rw [List.foldlM_cons] at hm
      dsimp only at hm
      cases hv : item e.2 with
      | error fault => rw [hv] at hm; cases hm
      | ok x =>
        rw [hv] at hm
        exact ih _ (OrderedMap.nodup_keys_put hread e.1 x) hm
  exact hfold [] List.nodup_nil h

/-- **A map is read entry by entry**: what it has under a key is read from the member of that name
that counts. -/
theorem asMap_eq_ok {item : Reader α} {members : List (String × Json)} {m : List (String × α)}
    (h : asMap item (.obj members) = .ok m) : ReadsEach item m (OrderedMap.ofList members) :=
  ReadsEach.fold (fun _ => Or.inl ⟨rfl, rfl⟩) h

end Record

end TypedBindings.Json
