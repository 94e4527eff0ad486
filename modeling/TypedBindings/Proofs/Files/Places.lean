import TypedBindings.Files.Tree

/-!
# Writing files keeps the places of paths

A path leads to a place, whether something stands there or not. Writing a file changes what stands
at one place, and no path leads elsewhere afterwards.

* `FileTree.place?`: the place that a path leads to.
* `FileTree.turn_spec`: what a walk meets at a name, and `FileTree.walkWith_cons`: how it goes on.
* `FileTree.AgreesOff`: two trees agree except at a place; a path that leads elsewhere leads to the
  same thing in both, and what can be written to one can be written to the other.
* `FileTree.place?_write`: a write keeps the place of every path.
* `FileTree.readText_write`: what is read after a write.
-/

namespace TypedBindings

/-- The place that is led to, whether something stands there or not. -/
def Target.place? : Target → Option (List String)
  | .found place => some place
  | .vacant place => some place
  | .nowhere => none

/-- Two walks lead to one target, or both lead to a place. -/
def Target.AgreesOff (place : List String) (r r' : Target) : Prop :=
  r' = r ∨ r.place? = some place ∧ r'.place? = some place

theorem Target.AgreesOff.place?_eq {place : List String} {r r' : Target}
    (h : r.AgreesOff place r') : r'.place? = r.place? := by
  rcases h with rfl | ⟨hr, hr'⟩
  · rfl
  · rw [hr, hr']

/-- What a walk meets at a name. -/
inductive Turn where
  /-- A directory, in which it goes on. -/
  | into (place : List String)
  /-- Nothing. -/
  | missing (place : List String)
  | file (place : List String)
  | link (place : List String) (target : String)
  /-- No entry can have the name. -/
  | nowhere
deriving DecidableEq, Repr

/-- What is met at a place with this entry. -/
def Turn.atEntry (place : List String) : Option Entry → Turn
  | none => .missing place
  | some .dir => .into place
  | some (.file _) => .file place
  | some (.link target) => .link place target

namespace FileTree

/-- The place that a path leads to; links are followed. -/
def place? (t : FileTree) (path : String) : Option (List String) := (t.resolve true path).place?

/-- The text of the file at a place. -/
def textAt (t : FileTree) (place : List String) : Option String :=
  match t.entry? place with
  | some (.file text) => text
  | _ => none

/-- A file can be written to a place: nothing stands there, or a file. -/
def TakesFile (t : FileTree) (place : List String) : Prop :=
  t.entry? place = none ∨ ∃ text, t.entry? place = some (.file text)

variable {t t' : FileTree} {place : List String} {path : String}

/-! ## Entries -/

theorem TakesFile.ne_nil (h : t.TakesFile place) : place ≠ [] := by
  rintro rfl
  rcases h with h | ⟨text, h⟩ <;> cases h

theorem lookup_filter_ne {entries : List (List String × Entry)} {p : List String}
    (hp : p ≠ place) : (entries.filter fun x => x.1 ≠ place).lookup p = entries.lookup p := by
  induction entries with
  | nil => rfl
  | cons x rest ih =>
    obtain ⟨k, v⟩ := x
    by_cases hk : k = place
    · subst hk
      rw [List.filter_cons_of_neg (by simp), ih, List.lookup_cons, beq_false_of_ne hp]
    · rw [List.filter_cons_of_pos (by simpa using hk), List.lookup_cons, List.lookup_cons, ih]

theorem entry?_set (hne : place ≠ []) (e : Entry) (p : List String) :
    entry? (t.set place e) p = if p = place then some e else t.entry? p := by
  unfold entry? set
  by_cases hp : p = place
  · subst hp
    have hgone : (t.entries.filter fun x => x.1 ≠ p).lookup p = none := by
      rw [List.lookup_eq_none_iff]
      intro x hx
      have hx : x.1 ≠ p := of_decide_eq_true (List.mem_filter.1 hx).2
      simpa using Ne.symm hx
    have hnil : p.isEmpty = false := by simpa using hne
    simp only [hnil, if_true]
    rw [List.lookup_append, hgone]
    simp
  · have hlast : [(place, e)].lookup p = none := by
      simp [List.lookup_cons, beq_false_of_ne hp]
    simp only [hp, if_false]
    rw [List.lookup_append, hlast, Option.or_none, lookup_filter_ne hp]

/-! ## Turns of a walk -/

/-- What is met at a name, from a directory. -/
def turn (t : FileTree) (here : List String) (name : String) : Turn :=
  if name = "." then .into here
  else if name = ".." then .into here.dropLast
  else if !isName name then .nowhere
  else .atEntry (here ++ [name]) (t.entry? (here ++ [name]))

section

variable {here : List String} {name : String}

/-- **A walk goes on by what it meets at its first name.** -/
theorem walkWith_cons (t : FileTree) (follow : Bool) (jump : List String → List String → Target)
    (here : List String) (name : String) (rest : List String) :
    t.walkWith follow jump here (name :: rest) =
      match t.turn here name with
      | .into place => t.walkWith follow jump place rest
      | .missing place => if rest.isEmpty then .vacant place else .nowhere
      | .file place => if rest.isEmpty then .found place else .nowhere
      | .link place target =>
        if rest.isEmpty && !follow then .found place
        else jump (if Path.isAbsolute target then [] else here) (Path.names target ++ rest)
      | .nowhere => .nowhere := by
  conv => lhs; unfold walkWith
  unfold turn
  split
  · rfl
  split
  · rfl
  split
  · rfl
  dsimp only
  cases t.entry? (here ++ [name]) with
  | none => rfl
  | some e => cases e <;> rfl

theorem turn_here (t : FileTree) (here : List String) : t.turn here "." = .into here := rfl

theorem turn_up (t : FileTree) (here : List String) : t.turn here ".." = .into here.dropLast := rfl

/-- **What a walk meets is there**: another place to go on from, or what stands under the name. Where
nothing is met, other trees may have an entry. -/
theorem turn_spec (t : FileTree) (here : List String) (name : String) :
    match t.turn here name with
    | .into place => name = "." ∧ place = here ∨ name = ".." ∧ place = here.dropLast ∨
        place = here ++ [name] ∧ t.entry? place = some .dir
    | .missing place => place = here ++ [name] ∧ t.entry? place = none ∧
        ∀ u : FileTree, u.turn here name = .atEntry place (u.entry? place)
    | .file place => place = here ++ [name] ∧ ∃ text, t.entry? place = some (.file text)
    | .link place target => place = here ++ [name] ∧ t.entry? place = some (.link target)
    | .nowhere => ∀ u : FileTree, u.turn here name = .nowhere := by
  by_cases hhere : name = "."
  · subst hhere
    exact Or.inl ⟨rfl, rfl⟩
  by_cases hup : name = ".."
  · subst hup
    exact Or.inr (Or.inl ⟨rfl, rfl⟩)
  by_cases hlong : (!isName name) = true
  · have hturn : ∀ u : FileTree, u.turn here name = .nowhere := fun u => by
      unfold turn
      rw [if_neg hhere, if_neg hup, if_pos hlong]
    rw [hturn t]
    exact hturn
  · have hturn : ∀ u : FileTree, u.turn here name =
        .atEntry (here ++ [name]) (u.entry? (here ++ [name])) := fun u => by
      unfold turn
      rw [if_neg hhere, if_neg hup, if_neg hlong]
    rw [hturn t]
    cases he : t.entry? (here ++ [name]) with
    | none => exact ⟨rfl, he, hturn⟩
    | some e =>
      cases e with
      | dir => exact Or.inr (Or.inr ⟨rfl, he⟩)
      | file text => exact ⟨rfl, text, he⟩
      | link target => exact ⟨rfl, he⟩

theorem turn_into (h : t.turn here name = .into place) :
    name = "." ∧ place = here ∨ name = ".." ∧ place = here.dropLast ∨
      place = here ++ [name] ∧ t.entry? place = some .dir := by
  simpa only [h] using t.turn_spec here name

theorem turn_missing (h : t.turn here name = .missing place) :
    place = here ++ [name] ∧ t.entry? place = none ∧
      ∀ u : FileTree, u.turn here name = .atEntry place (u.entry? place) := by
  simpa only [h] using t.turn_spec here name

theorem turn_file (h : t.turn here name = .file place) :
    place = here ++ [name] ∧ ∃ text, t.entry? place = some (.file text) := by
  simpa only [h] using t.turn_spec here name

theorem turn_link {target : String} (h : t.turn here name = .link place target) :
    place = here ++ [name] ∧ t.entry? place = some (.link target) := by
  simpa only [h] using t.turn_spec here name

/-- Trees with the same entry under a name meet the same there. -/
theorem turn_congr (h : t'.entry? (here ++ [name]) = t.entry? (here ++ [name])) :
    t'.turn here name = t.turn here name := by
  unfold turn
  rw [h]

/-- Where a tree has whatever another one has, what was met there is met again, unless it was
nothing. -/
theorem turn_eq_or_missing (h : ∀ {p e}, t.entry? p = some e → t'.entry? p = some e)
    (here : List String) (name : String) :
    (t'.turn here name = t.turn here name ∧ ∀ place, t.turn here name ≠ .missing place) ∨
      ∃ place, t.turn here name = .missing place := by
  cases hturn : t.turn here name with
  | missing place => exact Or.inr ⟨place, rfl⟩
  | into place =>
    refine Or.inl ⟨?_, fun _ he => by cases he⟩
    rcases turn_into hturn with ⟨rfl, rfl⟩ | ⟨rfl, rfl⟩ | ⟨rfl, he⟩
    · rfl
    · rfl
    · rw [turn_congr ((h he).trans he.symm), hturn]
  | file place =>
    obtain ⟨rfl, text, he⟩ := turn_file hturn
    exact Or.inl ⟨by rw [turn_congr ((h he).trans he.symm), hturn], fun _ he => by cases he⟩
  | link place target =>
    obtain ⟨rfl, he⟩ := turn_link hturn
    exact Or.inl ⟨by rw [turn_congr ((h he).trans he.symm), hturn], fun _ he => by cases he⟩
  | nowhere =>
    have hspec := t.turn_spec here name
    rw [hturn] at hspec
    exact Or.inl ⟨hspec t', fun _ he => by cases he⟩

end

/-! ## Walks -/

/-- **Trees that agree except at a place**, where one has nothing or a file, and the other a file. -/
structure AgreesOff (place : List String) (t t' : FileTree) : Prop where
  workDir : t'.workDir = t.workDir
  entry : ∀ p, p ≠ place → t'.entry? p = t.entry? p
  here : t.TakesFile place
  there : ∃ text, t'.entry? place = some (.file text)

theorem agreesOff_set (h : t.TakesFile place) (text : Option String) :
    AgreesOff place t (t.set place (.file text)) where
  workDir := rfl
  entry p hp := (entry?_set h.ne_nil _ p).trans (if_neg hp)
  here := h
  there := ⟨text, (entry?_set h.ne_nil _ place).trans (if_pos rfl)⟩

namespace AgreesOff

/-- The same is met in both trees, unless a file is where nothing was met. -/
theorem turn (h : AgreesOff place t t') (here : List String) (name : String) :
    t'.turn here name = t.turn here name ∨
      t.turn here name = .missing place ∧ t'.turn here name = .file place := by
  by_cases hp : here ++ [name] = place
  · obtain ⟨text, hthere⟩ := h.there
    unfold FileTree.turn
    rw [hp, hthere]
    split
    · exact Or.inl rfl
    split
    · exact Or.inl rfl
    split
    · exact Or.inl rfl
    rcases h.here with hnone | ⟨old, hold⟩
    · rw [hnone]
      exact Or.inr ⟨rfl, rfl⟩
    · rw [hold]
      exact Or.inl rfl
  · exact Or.inl (turn_congr (h.entry _ hp))

/-- **Walks in such trees agree**: a place without an entry and one with a file both end a walk. -/
theorem walkWith (h : AgreesOff place t t') {follow : Bool}
    {jump jump' : List String → List String → Target}
    (hjump : ∀ here names, (jump here names).AgreesOff place (jump' here names))
    (here names : List String) :
    (t.walkWith follow jump here names).AgreesOff place (t'.walkWith follow jump' here names) := by
  induction names generalizing here with
  | nil => exact Or.inl rfl
  | cons name rest ih =>
    rw [walkWith_cons, walkWith_cons]
    rcases h.turn here name with hsame | ⟨hmissing, hfile⟩
    · rw [hsame]
      cases t.turn here name with
      | into p => exact ih p
      | missing p => exact Or.inl rfl
      | file p => exact Or.inl rfl
      | link p target =>
        dsimp only
        split
        · exact Or.inl rfl
        · exact hjump _ _
      | nowhere => exact Or.inl rfl
    · rw [hmissing, hfile]
      dsimp only
      split
      · exact Or.inr ⟨rfl, rfl⟩
      · exact Or.inl rfl

theorem walk (h : AgreesOff place t t') (follow : Bool) (links : Nat) (here names : List String) :
    (t.walk follow links here names).AgreesOff place (t'.walk follow links here names) := by
  induction links generalizing here names with
  | zero => exact h.walkWith (fun _ _ => Or.inl rfl) here names
  | succ links ih => exact h.walkWith ih here names

theorem resolve (h : AgreesOff place t t') (follow : Bool) (path : String) :
    (t.resolve follow path).AgreesOff place (t'.resolve follow path) := by
  unfold FileTree.resolve
  rw [h.workDir]
  split
  · exact Or.inl rfl
  · exact h.walk follow linkLimit _ _

theorem place?_eq (h : AgreesOff place t t') (path : String) : t'.place? path = t.place? path :=
  (h.resolve true path).place?_eq

end AgreesOff

/-- Nothing stands where a walk ends without finding anything. -/
theorem entry?_of_vacant_walkWith {follow : Bool} {jump : List String → List String → Target}
    (hjump : ∀ here names, jump here names = .vacant place → t.entry? place = none)
    {here names : List String} (h : t.walkWith follow jump here names = .vacant place) :
    t.entry? place = none := by
  induction names generalizing here with
  | nil => cases h
  | cons name rest ih =>
    rw [walkWith_cons] at h
    cases hturn : t.turn here name with
    | into p => rw [hturn] at h; exact ih h
    | missing p =>
      rw [hturn] at h
      dsimp only at h
      split at h
      · cases h
        exact (turn_missing hturn).2.1
      · cases h
    | file p => rw [hturn] at h; dsimp only at h; split at h <;> cases h
    | link p target =>
      rw [hturn] at h
      dsimp only at h
      split at h
      · cases h
      · exact hjump _ _ h
    | nowhere => rw [hturn] at h; cases h

theorem entry?_of_vacant {follow : Bool} (h : t.resolve follow path = .vacant place) :
    t.entry? place = none := by
  have hwalk : ∀ links here names, t.walk follow links here names = .vacant place →
      t.entry? place = none := by
    intro links
    induction links with
    | zero => exact fun here names h => entry?_of_vacant_walkWith (fun _ _ h => by cases h) h
    | succ links ih => exact fun here names h => entry?_of_vacant_walkWith ih h
  unfold resolve at h
  split at h
  · cases h
  · exact hwalk _ _ _ h

/-- What a path leads to is what stands at its place. -/
theorem lookup_eq_entry (t : FileTree) (path : String) :
    t.lookup path = (t.place? path).bind t.entry? := by
  unfold lookup place?
  cases h : t.resolve true path with
  | found place => rfl
  | vacant place => rw [Target.place?, Option.bind_some, entry?_of_vacant h]
  | nowhere => rfl

/-- What is read under a path is the text at its place. -/
theorem readText_eq (t : FileTree) (path : String) :
    t.readText path = (t.place? path).bind t.textAt := by
  unfold readText lookup place? textAt
  cases h : t.resolve true path with
  | found place => rfl
  | vacant place =>
    rw [Target.place?, Option.bind_some, entry?_of_vacant h]
  | nowhere => rfl

/-! ## Writes -/

/-- What a write does. -/
theorem write_eq_some {text : Option String} (h : t.write path text = some t') :
    ∃ place, t.place? path = some place ∧ t.TakesFile place ∧ t' = t.set place (.file text) := by
  unfold write at h
  cases hr : t.resolve true path with
  | vacant place =>
    rw [hr] at h
    cases h
    exact ⟨place, by unfold place?; rw [hr]; rfl, Or.inl (entry?_of_vacant hr), rfl⟩
  | found place =>
    rw [hr] at h
    dsimp only at h
    split at h
    · next old hold =>
      cases h
      exact ⟨place, by unfold place?; rw [hr]; rfl, Or.inr ⟨old, hold⟩, rfl⟩
    · cases h
  | nowhere => rw [hr] at h; cases h

/-- **A write keeps the place of every path.** -/
theorem place?_write {text : Option String} (h : t.write path text = some t') (p : String) :
    t'.place? p = t.place? p := by
  obtain ⟨place, -, hfile, rfl⟩ := write_eq_some h
  exact (agreesOff_set hfile text).place?_eq p

/-- **What is read after a write**: the new text under every path that leads to the same place, and
what was read before under every other one. -/
theorem readText_write {text : Option String} (h : t.write path text = some t') (p : String) :
    t'.readText p = if t.place? p = t.place? path then text else t.readText p := by
  have hplace := place?_write h p
  obtain ⟨place, hpath, hfile, rfl⟩ := write_eq_some h
  rw [readText_eq, readText_eq, hplace, hpath]
  cases hp : t.place? p with
  | none => rfl
  | some q =>
    unfold textAt
    rw [Option.bind_some, Option.bind_some, entry?_set hfile.ne_nil]
    by_cases hq : q = place
    · rw [if_pos hq, if_pos (congrArg some hq)]
    · rw [if_neg hq, if_neg (fun e => hq (Option.some.inj e))]

/-- What a path leads to is still there after a write. -/
theorem hasEntry_write {text : Option String} (h : t.write path text = some t') {p : String}
    (hp : t.hasEntry p = true) : t'.hasEntry p = true := by
  have hplace := place?_write h p
  obtain ⟨place, -, hfile, rfl⟩ := write_eq_some h
  unfold hasEntry at hp ⊢
  rw [lookup_eq_entry] at hp ⊢
  rw [hplace]
  cases hq : t.place? p with
  | none => rw [hq] at hp; cases hp
  | some q =>
    rw [hq, Option.bind_some] at hp
    rw [Option.bind_some, entry?_set hfile.ne_nil]
    split
    · rfl
    · exact hp

/-! ## Trees that agree -/

namespace AgreesOff

theorem resolve_eq (h : AgreesOff place t t') (hpath : t.place? path ≠ some place) :
    t'.resolve true path = t.resolve true path :=
  (h.resolve true path).resolve_right fun hboth => hpath hboth.1

theorem lookup_eq (h : AgreesOff place t t') (hpath : t.place? path ≠ some place) :
    t'.lookup path = t.lookup path := by
  unfold FileTree.lookup
  rw [h.resolve_eq hpath]
  cases hr : t.resolve true path with
  | found p =>
    refine h.entry p fun hp => hpath ?_
    unfold FileTree.place?
    rw [hr, hp]; rfl
  | vacant p => rfl
  | nowhere => rfl

theorem set (h : AgreesOff place t t') {p : List String} (hp : p ≠ []) (text : Option String) :
    AgreesOff place (t.set p (.file text)) (t'.set p (.file text)) := by
  refine ⟨h.workDir, fun q hq => ?_, ?_, ?_⟩
  · rw [entry?_set hp, entry?_set hp, h.entry q hq]
  · unfold TakesFile
    rw [entry?_set hp]
    split
    · exact Or.inr ⟨text, rfl⟩
    · exact h.here
  · rw [entry?_set hp]
    split
    · exact ⟨text, rfl⟩
    · exact h.there

/-- What can be written to one tree can be written to the other. -/
theorem write (h : AgreesOff place t t') {text : Option String} {s : FileTree}
    (hw : t.write path text = some s) :
    ∃ s', t'.write path text = some s' ∧ AgreesOff place s s' := by
  obtain ⟨q, hq, hfile, rfl⟩ := write_eq_some hw
  refine ⟨t'.set q (.file text), ?_, h.set hfile.ne_nil text⟩
  -- Where the trees differ both have a file, and elsewhere they have the same entry.
  by_cases hp : q = place
  · subst hp
    obtain ⟨old, hold⟩ := h.there
    have hplace := (h.place?_eq path).trans hq
    unfold FileTree.place? at hplace
    unfold FileTree.write
    cases hr : t'.resolve true path with
    | vacant p => rw [hr] at hplace; cases hplace; rfl
    | found p => rw [hr] at hplace; cases hplace; dsimp only; rw [hold]
    | nowhere => rw [hr] at hplace; cases hplace
  · have hpath : t.place? path ≠ some place := fun e => hp (Option.some.inj (hq.symm.trans e))
    unfold FileTree.place? at hq
    unfold FileTree.write at hw ⊢
    rw [h.resolve_eq hpath]
    cases hr : t.resolve true path with
    | vacant p => rw [hr] at hq; cases hq; rfl
    | found p =>
      rw [hr] at hq hw
      cases hq
      dsimp only at hw ⊢
      rw [h.entry q hp]
      cases he : t.entry? q with
      | none => rw [he] at hw; cases hw
      | some e =>
        rw [he] at hw
        cases e with
        | file old => rfl
        | dir => cases hw
        | link target => cases hw
    | nowhere => rw [hr] at hq; cases hq

end AgreesOff

end FileTree

end TypedBindings
