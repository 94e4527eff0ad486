import TypedBindings.Proofs.Files.Directory
import TypedBindings.Proofs.Files.OneMoreFile

/-!
# Directories that are made

What a tree gains when a directory is made with those that it stands in.

* `FileTree.createDirs_cases`: how a directory is made with those that it stands in.
* `FileTree.createDirs_induction`: what every single directory keeps, all of them keep.
* `FileTree.AddsDirs`: a tree is another one with further directories.
* `FileTree.IsPartOf`: whatever stands in a tree stands in another one too.
* `FileTree.isDir_of_createDirs`: the directory is there afterwards.
-/

namespace TypedBindings

namespace FileTree

variable {t u v : FileTree} {path : String}

/-! ## One directory after the other -/

theorem ensureDir_eq (t : FileTree) (path : String) :
    (∃ p, t.resolve false path = .vacant p ∧ t.ensureDir path = (t.set p .dir, true)) ∨
      t.ensureDir path = (t, t.isDir path) := by
  unfold ensureDir createDir
  cases hr : t.resolve false path with
  | vacant p => exact Or.inl ⟨p, rfl, rfl⟩
  | found p => exact Or.inr rfl
  | nowhere => exact Or.inr rfl

/-- What is there in the end was there, or was made. -/
theorem ensureDir_eq_true (h : t.ensureDir path = (u, true)) :
    u = t ∧ t.isDir path = true ∨ ∃ p, t.resolve false path = .vacant p ∧ u = t.set p .dir := by
  rcases ensureDir_eq t path with ⟨p, hp, he⟩ | he
  · rw [he] at h
    cases h
    exact Or.inr ⟨p, hp, rfl⟩
  · rw [he] at h
    exact Or.inl ⟨(congrArg Prod.fst h).symm, congrArg Prod.snd h⟩

/-- What cannot be made leaves the tree as it is. -/
theorem ensureDir_eq_false (h : t.ensureDir path = (u, false)) :
    u = t ∧ t.isDir path = false := by
  rcases ensureDir_eq t path with ⟨p, -, he⟩ | he
  · rw [he] at h
    cases h
  · rw [he] at h
    exact ⟨(congrArg Prod.fst h).symm, congrArg Prod.snd h⟩

/-- **How a directory is made with those that it stands in**: it can be made at once, or after its
parent, or its parent cannot be made. -/
theorem createDirs_cases {depth : Nat} {made : Bool} (hpath : path ≠ "")
    (h : t.createDirs depth path = (u, made)) :
    t.ensureDir path = (u, made) ∨
      ∃ rest parent, depth = rest + 1 ∧ Path.parent? path = some parent ∧
        t.ensureDir path = (t, false) ∧
        (t.createDirs rest parent = (u, false) ∧ made = false ∨
          ∃ s, t.createDirs rest parent = (s, true) ∧ s.ensureDir path = (u, made)) := by
  have hempty : ¬ path.isEmpty = true := by simpa using hpath
  cases depth with
  | zero =>
    rw [createDirs_zero, if_neg hempty] at h
    exact Or.inl h
  | succ rest =>
    rw [createDirs_succ, if_neg hempty] at h
    split at h
    · exact Or.inl h
    next hmade =>
    -- A directory that cannot be made at once leaves the tree as it was.
    have hsame : t.ensureDir path = (t, false) := by
      cases hs : t.ensureDir path with
      | mk s there =>
        rw [hs] at hmade
        have hthere : there = false := by simpa using hmade
        rw [hthere] at hs ⊢
        rw [(ensureDir_eq_false hs).1]
    cases hparent : Path.parent? path with
    | none =>
      rw [hparent] at h
      exact Or.inl h
    | some parent =>
      rw [hparent, hsame] at h
      dsimp only [Option.elim_some] at h
      refine Or.inr ⟨rest, parent, rfl, rfl, hsame, ?_⟩
      cases hdirs : t.createDirs rest parent with
      | mk s there =>
        rw [hdirs] at h
        cases there with
        | true => exact Or.inr ⟨s, rfl, h⟩
        | false => cases h; exact Or.inl ⟨rfl, rfl⟩

theorem createDirs_empty (t : FileTree) (depth : Nat) : t.createDirs depth "" = (t, true) := by
  cases depth with
  | zero => rw [createDirs_zero]; rfl
  | succ depth => rw [createDirs_succ]; rfl

theorem ne_empty_of_createDirs {depth : Nat} (h : t.createDirs depth path = (u, false)) :
    path ≠ "" := by
  rintro rfl
  rw [createDirs_empty] at h
  cases h

theorem createDirs_of_ensureDir (hpath : path ≠ "") (h : t.ensureDir path = (u, true))
    (depth : Nat) : t.createDirs depth path = (u, true) := by
  have hempty : ¬ path.isEmpty = true := by simpa using hpath
  cases depth with
  | zero => rw [createDirs_zero, if_neg hempty, h]
  | succ depth =>
    rw [createDirs_succ, if_neg hempty, h]
    rfl

/-- What every single directory keeps, all of them keep. -/
theorem createDirs_induction {P : FileTree → Prop}
    (hset : ∀ s p path, s.resolve false path = .vacant p → P s → P (s.set p .dir))
    (depth : Nat) (path : String) (h : P t) : P (t.createDirs depth path).1 := by
  have hensure : ∀ s path u made, P s → s.ensureDir path = (u, made) → P u := by
    intro s path u made hs hu
    rcases ensureDir_eq s path with ⟨p, hp, he⟩ | he
    · rw [he] at hu; cases hu; exact hset s p path hp hs
    · rw [he] at hu; cases hu; exact hs
  induction depth using Nat.strongRecOn generalizing path with
  | ind depth ih =>
    by_cases hpath : path = ""
    · rw [hpath, createDirs_empty]
      exact h
    cases hu : t.createDirs depth path with
    | mk u made =>
      rcases createDirs_cases hpath hu with hu | ⟨rest, parent, rfl, -, -, ⟨hu, -⟩ | ⟨s, hs, hu⟩⟩
      · exact hensure t path u made h hu
      · have hparent := ih rest rest.lt_succ_self parent
        rwa [hu] at hparent
      · have hparent := ih rest rest.lt_succ_self parent
        rw [hs] at hparent
        exact hensure s path u made hparent hu

/-- **A tree is another one with further directories.** -/
structure AddsDirs (t u : FileTree) : Prop where
  workDir : u.workDir = t.workDir
  entries : ∃ more, u.entries = t.entries ++ more ∧ ∀ x ∈ more, x.2 = .dir

theorem AddsDirs.refl (t : FileTree) : t.AddsDirs t :=
  ⟨rfl, [], (List.append_nil _).symm, fun _ hx => absurd hx List.not_mem_nil⟩

theorem addsDirs_createDirAll (t : FileTree) (path : String) :
    t.AddsDirs (t.createDirAll path).1 := by
  refine createDirs_induction (P := t.AddsDirs) (fun s p path hp hs => ?_) _ path (.refl t)
  obtain ⟨hworkDir, more, hentries, hdirs⟩ := hs
  refine ⟨hworkDir, more ++ [(p, .dir)], ?_, ?_⟩
  · rw [entries_set_of_none (entry?_of_vacant hp), hentries, List.append_assoc]
  · intro x hx
    rcases List.mem_append.1 hx with hx | hx
    · exact hdirs x hx
    · rw [List.mem_singleton.1 hx]

/-- A file of the larger tree is one of the smaller tree. -/
theorem AddsDirs.mem_of_file (h : t.AddsDirs u) {place : List String} {text : Option String}
    (hx : (place, .file text) ∈ u.entries) : (place, .file text) ∈ t.entries := by
  obtain ⟨-, more, hentries, hdirs⟩ := h
  rw [hentries] at hx
  rcases List.mem_append.1 hx with hx | hx
  · exact hx
  · cases hdirs _ hx

/-- Whatever files are picked out of the trees, they are the same. -/
theorem AddsDirs.filterMap_eq {α : Type} (h : t.AddsDirs u) {f : List String × Entry → Option α}
    (hf : ∀ place, f (place, .dir) = none) : u.entries.filterMap f = t.entries.filterMap f := by
  obtain ⟨-, more, hentries, hdirs⟩ := h
  have hnone : more.filterMap f = [] := by
    rw [List.filterMap_eq_nil_iff]
    rintro ⟨place, e⟩ hx
    cases hdirs _ hx
    exact hf place
  rw [hentries, List.filterMap_append, hnone, List.append_nil]

/-! ## The directory is there -/

/-- **A tree is a part of another one**: whatever stands in it stands in the other one too. -/
structure IsPartOf (t u : FileTree) : Prop where
  workDir : u.workDir = t.workDir
  entry?_eq : ∀ {p e}, t.entry? p = some e → u.entry? p = some e

theorem Grows.isPartOf (h : t.Grows u) : t.IsPartOf u := ⟨h.workDir, h.entry?_eq⟩

/-- What is led to in the smaller tree is found in the larger one, if a directory is there. -/
theorem IsPartOf.walkWith_eq_found (h : t.IsPartOf u) {p : List String}
    (hp : u.entry? p = some .dir) {follow follow' : Bool}
    (hfollow : follow' = false → follow = false) {jump jump' : List String → List String → Target}
    (hjump : ∀ here names, (jump here names).place? = some p → jump' here names = .found p)
    {here names : List String} (hw : (t.walkWith follow jump here names).place? = some p) :
    u.walkWith follow' jump' here names = .found p := by
  induction names generalizing here with
  | nil => cases hw; rfl
  | cons name rest ih =>
    rw [walkWith_cons] at hw ⊢
    rcases turn_eq_or_missing h.entry?_eq here name with ⟨hsame, hmet⟩ | ⟨q, hmissing⟩
    · -- A directory is there, so the walk does not end at a file or at a link.
      have hother : ∀ {e}, t.entry? p = some e → e = .dir := fun he =>
        Option.some.inj ((h.entry?_eq he).symm.trans hp)
      rw [hsame]
      cases hturn : t.turn here name with
      | into q => rw [hturn] at hw; exact ih hw
      | missing q => exact absurd hturn (hmet q)
      | file q =>
        obtain ⟨rfl, text, he⟩ := turn_file hturn
        rw [hturn] at hw
        dsimp only at hw
        split at hw
        · cases hw
          cases hother he
        · cases hw
      | link q target =>
        obtain ⟨rfl, he⟩ := turn_link hturn
        rw [hturn] at hw
        dsimp only at hw ⊢
        by_cases hstop : (rest.isEmpty && !follow) = true
        · rw [if_pos hstop] at hw
          cases hw
          cases hother he
        · rw [if_neg hstop] at hw
          have hgo : ¬ (rest.isEmpty && !follow') = true := by
            intro hstop'
            obtain ⟨hlast, hno⟩ := Bool.and_eq_true_iff.1 hstop'
            have hno : follow = false := hfollow (by simpa using hno)
            exact hstop (by rw [hlast, hno]; rfl)
          rw [if_neg hgo]
          exact hjump _ _ hw
      | nowhere => rw [hturn] at hw; cases hw
    · -- The walk ends where the smaller tree has nothing; the larger one has the directory there.
      obtain ⟨-, -, hother⟩ := turn_missing hmissing
      rw [hmissing] at hw
      dsimp only at hw
      split at hw
      · next hlast =>
        cases hw
        rw [hother, hp, List.isEmpty_iff.1 hlast]
        rfl
      · cases hw

theorem IsPartOf.resolve_eq_found (h : t.IsPartOf u) {p : List String} (hp : u.entry? p = some .dir)
    {follow follow' : Bool} (hfollow : follow' = false → follow = false)
    (hw : (t.resolve follow path).place? = some p) : u.resolve follow' path = .found p := by
  have hwalk : ∀ links here names, (t.walk follow links here names).place? = some p →
      u.walk follow' links here names = .found p := by
    intro links
    induction links with
    | zero =>
      exact fun here names => h.walkWith_eq_found hp hfollow fun _ _ h => by cases h
    | succ links ih => exact fun here names => h.walkWith_eq_found hp hfollow ih
  unfold resolve at hw ⊢
  rw [h.workDir]
  split at hw
  · cases hw
  · next hclean => rw [if_neg hclean]; exact hwalk _ _ _ hw

theorem isDir_iff : t.isDir path = true ↔
    ∃ p, t.resolve true path = .found p ∧ t.entry? p = some .dir := by
  unfold isDir lookup
  cases t.resolve true path with
  | found p =>
    cases he : t.entry? p with
    | none => simp [he]
    | some e => cases e <;> simp [he]
  | vacant p => simp
  | nowhere => simp

theorem hasEntry_of_isDir (h : t.isDir path = true) : t.hasEntry path = true := by
  obtain ⟨p, hp, he⟩ := isDir_iff.1 h
  unfold hasEntry lookup
  rw [hp]
  exact Option.isSome_iff_exists.2 ⟨_, he⟩

theorem IsPartOf.isDir (h : t.IsPartOf u) (ht : t.isDir path = true) : u.isDir path = true := by
  obtain ⟨p, hp, he⟩ := isDir_iff.1 ht
  have hu := h.entry?_eq he
  exact isDir_iff.2 ⟨p, h.resolve_eq_found hu id (by rw [hp]; rfl), hu⟩

/-- What was put where nothing stood is there. -/
theorem entry?_set_vacant {p : List String} (hp : t.resolve false path = .vacant p) (e : Entry) :
    entry? (t.set p e) p = some e := by
  have hne : p ≠ [] := by
    rintro rfl
    cases entry?_of_vacant hp
  rw [entry?_set hne, if_pos rfl]

/-- Where a directory was put, the path leads to it. -/
theorem resolve_set_dir {p : List String} (hp : t.resolve false path = .vacant p) (follow : Bool) :
    (t.set p .dir).resolve follow path = .found p :=
  (grows_set (entry?_of_vacant hp) .dir).isPartOf.resolve_eq_found (entry?_set_vacant hp .dir)
    (fun _ => rfl) (by rw [hp]; rfl)

theorem isDir_of_ensureDir (h : t.ensureDir path = (u, true)) : u.isDir path = true := by
  rcases ensureDir_eq_true h with ⟨rfl, hdir⟩ | ⟨p, hp, rfl⟩
  · exact hdir
  · exact isDir_iff.2 ⟨p, resolve_set_dir hp true, entry?_set_vacant hp .dir⟩

/-- **A directory that was made is there.** -/
theorem isDir_of_createDirs {depth : Nat} (hpath : path ≠ "")
    (h : t.createDirs depth path = (u, true)) : u.isDir path = true := by
  rcases createDirs_cases hpath h with hu | ⟨rest, parent, -, -, -, ⟨-, hno⟩ | ⟨s, -, hu⟩⟩
  · exact isDir_of_ensureDir hu
  · cases hno
  · exact isDir_of_ensureDir hu

end FileTree

end TypedBindings
