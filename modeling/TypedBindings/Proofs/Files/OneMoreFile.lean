import TypedBindings.Proofs.Files.Places
import TypedBindings.Proofs.Insertion

/-!
# Trees with one more file

A file is put where nothing stands. What can be done to the tree without it can be done to the
tree with it, and leads to trees that differ by the same file.

* `FileTree.IsFree`: nothing stands at a place or below it.
* `FileTree.AddsFile`: a tree is another one with one more file.
* `AddsFile.erase`, `AddsFile.createDirs`: taking directories away and making them.
* `AddsFile.filesUnder`: the file is found among the others, which keep their order.
-/

namespace TypedBindings

namespace FileTree

/-- Nothing stands at a place or below it, and the working directory is elsewhere. -/
structure IsFree (t : FileTree) (place : List String) : Prop where
  entries : ∀ e ∈ t.entries, ¬ place <+: e.1
  workDir : ¬ place <+: t.workDir

/-- **A tree is another one with one more file**, where nothing stood. -/
structure AddsFile (place : List String) (text : Option String) (t t' : FileTree) : Prop where
  free : t.IsFree place
  workDir : t'.workDir = t.workDir
  entries : Inserted (place, .file text) t.entries t'.entries

variable {t t' u : FileTree} {place : List String} {text : Option String} {path : String}

/-! ## Free places -/

/-- What is found at a place is listed, the root apart. -/
theorem mem_of_entry_eq_some {p : List String} {e : Entry} (h : t.entry? p = some e) (hp : p ≠ []) :
    (p, e) ∈ t.entries := by
  unfold entry? at h
  rw [if_neg (by simpa using hp)] at h
  obtain ⟨front, back, hentries, -⟩ := List.lookup_eq_some_iff.1 h
  rw [hentries]
  exact List.mem_append_right _ List.mem_cons_self

namespace IsFree

/-- The root is never free, since the working directory lies below it. -/
theorem ne_nil (h : t.IsFree place) : place ≠ [] := by
  rintro rfl
  exact h.workDir List.nil_prefix

/-- Nothing is found at a free place. -/
theorem entry?_eq_none (h : t.IsFree place) : t.entry? place = none := by
  cases he : t.entry? place with
  | none => rfl
  | some e => exact absurd List.prefix_rfl (h.entries _ (mem_of_entry_eq_some he h.ne_nil))

/-- A walk that finds something does not end at a free place, nor below it. -/
theorem not_found_walkWith (h : t.IsFree place) {follow : Bool}
    {jump : List String → List String → Target}
    (hjump : ∀ here names, ¬ place <+: here → ∀ p, jump here names = .found p → ¬ place <+: p)
    {here names : List String} (hhere : ¬ place <+: here) {p : List String}
    (hp : t.walkWith follow jump here names = .found p) : ¬ place <+: p := by
  have hentry : ∀ p e, p ≠ [] → t.entry? p = some e → ¬ place <+: p :=
    fun p e hne he => h.entries _ (mem_of_entry_eq_some he hne)
  -- The walk has only been at places with something there, and goes up from them or on to the next.
  induction names generalizing here with
  | nil => cases hp; exact hhere
  | cons name rest ih =>
    rw [walkWith_cons] at hp
    cases hturn : t.turn here name with
    | into q =>
      rw [hturn] at hp
      refine ih ?_ hp
      rcases turn_into hturn with ⟨-, rfl⟩ | ⟨-, rfl⟩ | ⟨rfl, he⟩
      · exact hhere
      · exact fun hup => hhere (hup.trans (List.dropLast_prefix here))
      · exact hentry _ _ (by simp) he
    | missing q => rw [hturn] at hp; dsimp only at hp; split at hp <;> cases hp
    | file q =>
      obtain ⟨rfl, text, he⟩ := turn_file hturn
      rw [hturn] at hp
      dsimp only at hp
      split at hp
      · cases hp; exact hentry _ _ (by simp) he
      · cases hp
    | link q target =>
      obtain ⟨rfl, he⟩ := turn_link hturn
      rw [hturn] at hp
      dsimp only at hp
      split at hp
      · cases hp; exact hentry _ _ (by simp) he
      · refine hjump _ _ ?_ p hp
        split
        · exact fun hnil => h.ne_nil (List.prefix_nil.1 hnil)
        · exact hhere
    | nowhere => rw [hturn] at hp; cases hp

/-- No path finds a free place or one below it, whichever links it goes through. -/
theorem not_found (h : t.IsFree place) {follow : Bool} {p : List String}
    (hp : t.resolve follow path = .found p) : ¬ place <+: p := by
  have hwalk : ∀ links here names, ¬ place <+: here →
      ∀ p, t.walk follow links here names = .found p → ¬ place <+: p := by
    intro links
    induction links with
    | zero => exact fun here names hhere p => h.not_found_walkWith (fun _ _ _ _ h => by cases h) hhere
    | succ links ih => exact fun here names hhere p => h.not_found_walkWith ih hhere
  unfold resolve at hp
  split at hp
  · cases hp
  · refine hwalk _ _ _ ?_ p hp
    split
    · exact fun hnil => h.ne_nil (List.prefix_nil.1 hnil)
    · exact h.workDir

/-- A path that leads to a free place finds nothing there. -/
theorem resolve_eq_vacant (h : t.IsFree place) {follow : Bool}
    (hp : (t.resolve follow path).place? = some place) : t.resolve follow path = .vacant place := by
  cases hr : t.resolve follow path with
  | found p => rw [hr] at hp; cases hp; exact absurd List.prefix_rfl (h.not_found hr)
  | vacant p => rw [hr] at hp; cases hp; rfl
  | nowhere => rw [hr] at hp; cases hp

/-- A path to a free place finds nothing. -/
theorem lookup_eq_none (h : t.IsFree place) (hp : t.place? path = some place) :
    t.lookup path = none := by
  unfold lookup
  rw [h.resolve_eq_vacant hp]

/-- A path that finds something leads elsewhere. -/
theorem place?_ne (h : t.IsFree place) {e : Entry} (he : t.lookup path = some e) :
    t.place? path ≠ some place := by
  intro hp
  rw [h.lookup_eq_none hp] at he
  cases he

end IsFree

/-! ## Trees that grow -/

/-- A tree has what another one has, and perhaps more. -/
structure Grows (t u : FileTree) : Prop where
  workDir : u.workDir = t.workDir
  entries : t.entries <+: u.entries

theorem Grows.refl (t : FileTree) : t.Grows t := ⟨rfl, List.prefix_rfl⟩

theorem Grows.trans {v : FileTree} (h : t.Grows u) (h' : u.Grows v) : t.Grows v :=
  ⟨h'.workDir.trans h.workDir, h.entries.trans h'.entries⟩

/-- What is free later was free before. -/
theorem Grows.isFree (h : t.Grows u) (hu : u.IsFree place) : t.IsFree place :=
  ⟨fun e he => hu.entries e (h.entries.subset he), h.workDir ▸ hu.workDir⟩

/-- What was found at a place is found there later. -/
theorem Grows.entry?_eq (h : t.Grows u) {p : List String} {e : Entry} (he : t.entry? p = some e) :
    u.entry? p = some e := by
  obtain ⟨more, hmore⟩ := h.entries
  unfold entry? at he ⊢
  split
  · rwa [if_pos ‹_›] at he
  · rw [if_neg ‹_›] at he
    rw [← hmore, List.lookup_append, he]
    rfl

/-- What is put at an empty place comes last. -/
theorem entries_set_of_none {p : List String} (hp : t.entry? p = none) (e : Entry) :
    (t.set p e).entries = t.entries ++ [(p, e)] := by
  have hlookup : t.entries.lookup p = none := by
    unfold entry? at hp
    split at hp
    · cases hp
    · exact hp
  unfold set
  rw [List.filter_eq_self.2]
  intro x hx
  have hne := List.lookup_eq_none_iff.1 hlookup x hx
  simpa using fun he : x.1 = p => by simp [he] at hne

theorem grows_set {p : List String} (hp : t.entry? p = none) (e : Entry) : t.Grows (t.set p e) :=
  ⟨rfl, by rw [entries_set_of_none hp]; exact List.prefix_append ..⟩

/-- Making one directory only adds to the tree. -/
theorem grows_ensureDir (t : FileTree) (path : String) : t.Grows (t.ensureDir path).1 := by
  unfold ensureDir createDir
  cases hr : t.resolve false path with
  | vacant p => exact grows_set (entry?_of_vacant hr) .dir
  | found p => exact .refl t
  | nowhere => exact .refl t

theorem createDirs_zero (path : String) (t : FileTree) :
    t.createDirs 0 path = if path.isEmpty then (t, true) else t.ensureDir path := by
  unfold createDirs
  obtain ⟨u, isThere⟩ := t.ensureDir path
  cases isThere <;> rfl

/-- If a directory cannot be made, the one that it stands in is made first. -/
theorem createDirs_succ (depth : Nat) (path : String) (t : FileTree) :
    t.createDirs (depth + 1) path =
      if path.isEmpty then (t, true)
      else if (t.ensureDir path).2 then t.ensureDir path
      else (Path.parent? path).elim (t.ensureDir path) fun parent =>
        let made := (t.ensureDir path).1.createDirs depth parent
        if made.2 then made.1.ensureDir path else made := by
  conv => lhs; unfold createDirs
  obtain ⟨u, isThere⟩ := t.ensureDir path
  cases isThere with
  | true => rfl
  | false =>
    cases Path.parent? path with
    | none => rfl
    | some parent =>
      dsimp only [Option.elim_some]
      obtain ⟨v, isThere⟩ := u.createDirs depth parent
      cases isThere <;> rfl

/-- Making all directories of a path only adds to the tree. -/
theorem grows_createDirs (depth : Nat) (path : String) (t : FileTree) :
    t.Grows (t.createDirs depth path).1 := by
  induction depth generalizing path t with
  | zero =>
    rw [createDirs_zero]
    split
    · exact .refl t
    · exact grows_ensureDir t path
  | succ depth ih =>
    have hensure := grows_ensureDir t path
    rw [createDirs_succ]
    split
    · exact .refl t
    split
    · exact hensure
    cases Path.parent? path with
    | none => exact hensure
    | some parent =>
      have hparent := ih parent (t.ensureDir path).1
      dsimp only [Option.elim_some]
      split
      · exact (hensure.trans hparent).trans (grows_ensureDir _ path)
      · exact hensure.trans hparent

/-- A walk to a place with nothing there is not led elsewhere by what is made somewhere else. -/
theorem Grows.walkWith_eq_vacant (h : t.Grows u) (hplace : u.entry? place = none) {follow : Bool}
    {jump jump' : List String → List String → Target}
    (hjump : ∀ here names, jump here names = .vacant place → jump' here names = .vacant place)
    {here names : List String} (hw : t.walkWith follow jump here names = .vacant place) :
    u.walkWith follow jump' here names = .vacant place := by
  -- On its way the walk meets entries that are there in both trees; only at its end there is none.
  induction names generalizing here with
  | nil => cases hw
  | cons name rest ih =>
    rw [walkWith_cons] at hw ⊢
    rcases turn_eq_or_missing h.entry?_eq here name with ⟨hsame, hmet⟩ | ⟨p, hmissing⟩
    · rw [hsame]
      cases hturn : t.turn here name with
      | into p => rw [hturn] at hw; exact ih hw
      | missing p => exact absurd hturn (hmet p)
      | file p => rw [hturn] at hw; dsimp only at hw; split at hw <;> cases hw
      | link p target =>
        rw [hturn] at hw
        dsimp only at hw ⊢
        split at hw
        · cases hw
        · next hfollow => rw [if_neg hfollow]; exact hjump _ _ hw
      | nowhere => rw [hturn] at hw; cases hw
    · obtain ⟨-, -, hother⟩ := turn_missing hmissing
      rw [hmissing] at hw
      dsimp only at hw
      split at hw
      · next hlast =>
        cases hw
        rw [hother, hplace]
        exact if_pos hlast
      · cases hw

theorem Grows.resolve_eq_vacant (h : t.Grows u) (hplace : u.entry? place = none) {follow : Bool}
    (hw : t.resolve follow path = .vacant place) : u.resolve follow path = .vacant place := by
  have hwalk : ∀ links here names, t.walk follow links here names = .vacant place →
      u.walk follow links here names = .vacant place := by
    intro links
    induction links with
    | zero => exact fun here names => h.walkWith_eq_vacant hplace fun _ _ h => by cases h
    | succ links ih => exact fun here names => h.walkWith_eq_vacant hplace ih
  unfold resolve at hw ⊢
  rw [h.workDir]
  split at hw
  · cases hw
  · next hclean => rw [if_neg hclean]; exact hwalk _ _ _ hw

/-! ## One more file -/

/-- Putting a file at a free place adds it to the tree. -/
theorem addsFile_set (h : t.IsFree place) (text : Option String) :
    AddsFile place text t (t.set place (.file text)) where
  free := h
  workDir := rfl
  entries := by
    rw [entries_set_of_none h.entry?_eq_none]
    exact .last _ _

namespace AddsFile

/-- The two trees differ at the place of the file only. -/
theorem entry?_eq (h : AddsFile place text t t') (p : List String) :
    t'.entry? p = if p = place then some (.file text) else t.entry? p := by
  obtain ⟨front, back, ht, ht'⟩ := h.entries
  have hnil : place.isEmpty = false := by simpa using h.free.ne_nil
  unfold entry?
  by_cases hp : p = place
  · -- What comes before the file in the list is elsewhere, so looking the place up gets to the file.
    subst hp
    have hfront : front.lookup p = none := by
      rw [List.lookup_eq_none_iff]
      intro e he
      have hne : p ≠ e.1 := by
        intro heq
        exact h.free.entries e (by rw [ht]; exact List.mem_append_left _ he)
          (heq ▸ List.prefix_rfl)
      simpa using hne
    rw [if_pos rfl, hnil, ht', List.lookup_append, hfront, List.lookup_cons]
    simp
  · rw [if_neg hp, ht, ht', List.lookup_append, List.lookup_append, List.lookup_cons,
      beq_false_of_ne hp]

theorem agreesOff (h : AddsFile place text t t') : AgreesOff place t t' where
  workDir := h.workDir
  entry p hp := (h.entry?_eq p).trans (if_neg hp)
  here := Or.inl h.free.entry?_eq_none
  there := ⟨text, (h.entry?_eq place).trans (if_pos rfl)⟩

/-- A directory that does not hold the file can be taken away from both trees. -/
theorem erase (h : AddsFile place text t t') {q : List String} (hq : ¬ q <+: place) :
    AddsFile place text (t.erase q) (t'.erase q) where
  free := ⟨fun e he => h.free.entries e (List.mem_filter.1 he).1, h.free.workDir⟩
  workDir := h.workDir
  entries := h.entries.filter (by
    have hnot : q.isPrefixOf place = false := by
      rw [← Bool.not_eq_true, List.isPrefixOf_iff_prefix]
      exact hq
    simp [hnot])

/-- Something can be put at another place of both trees. -/
theorem set (h : AddsFile place text t t') {p : List String} (hp : p ≠ place) {e : Entry}
    (hfree : (t.set p e).IsFree place) : AddsFile place text (t.set p e) (t'.set p e) where
  free := hfree
  workDir := h.workDir
  entries := (h.entries.filter (by simpa using hp.symm)).append_right _

/-- A directory can be made in both trees, with the same success. -/
theorem ensureDir (h : AddsFile place text t t') (hfree : (t.ensureDir path).1.IsFree place) :
    AddsFile place text (t.ensureDir path).1 (t'.ensureDir path).1 ∧
      (t'.ensureDir path).2 = (t.ensureDir path).2 := by
  have hisDir : t'.isDir path = t.isDir path := by
    unfold isDir
    -- A path that leads to the file finds no directory in either tree.
    by_cases hpath : t.place? path = some place
    · rw [h.free.lookup_eq_none hpath]
      have hplace := (h.agreesOff.place?_eq path).trans hpath
      unfold place? at hplace
      unfold lookup
      cases hr : t'.resolve true path with
      | found p =>
        rw [hr] at hplace
        cases hplace
        dsimp only
        rw [h.entry?_eq, if_pos rfl]
      | vacant p => rfl
      | nowhere => rfl
    · rw [h.agreesOff.lookup_eq hpath]
  rcases h.agreesOff.resolve false path with hsame | ⟨hp, -⟩
  · unfold FileTree.ensureDir createDir at hfree ⊢
    rw [hsame]
    cases hr : t.resolve false path with
    | vacant p =>
      rw [hr] at hfree
      refine ⟨h.set ?_ hfree, rfl⟩
      rintro rfl
      exact hfree.entries (p, .dir) (List.mem_append_right _ List.mem_cons_self) List.prefix_rfl
    | found p => exact ⟨h, hisDir⟩
    | nowhere => exact ⟨h, hisDir⟩
  · -- The directory would be made at the place of the file, which stays free.
    have hr := h.free.resolve_eq_vacant hp
    unfold FileTree.ensureDir createDir at hfree
    rw [hr] at hfree
    exact absurd List.prefix_rfl
      (hfree.entries (place, .dir) (List.mem_append_right _ List.mem_cons_self))

/-- **Directories are made in both trees alike**, if the place of the file stays free. -/
theorem createDirs (h : AddsFile place text t t') {depth : Nat}
    (hfree : (t.createDirs depth path).1.IsFree place) :
    AddsFile place text (t.createDirs depth path).1 (t'.createDirs depth path).1 ∧
      (t'.createDirs depth path).2 = (t.createDirs depth path).2 := by
  -- The place is free in the last of the trees, hence in each before it, since they only grow.
  induction depth generalizing path t t' with
  | zero =>
    rw [createDirs_zero] at hfree
    rw [createDirs_zero, createDirs_zero]
    split
    · exact ⟨h, rfl⟩
    · next hempty =>
      rw [if_neg hempty] at hfree
      exact h.ensureDir hfree
  | succ depth ih =>
    rw [createDirs_succ] at hfree
    rw [createDirs_succ, createDirs_succ]
    split
    · exact ⟨h, rfl⟩
    next hempty =>
    rw [if_neg hempty] at hfree
    by_cases hmade : (t.ensureDir path).2 = true
    · rw [if_pos hmade] at hfree
      obtain ⟨hu, hsame⟩ := h.ensureDir hfree
      rw [if_pos hmade, if_pos (hsame.trans hmade)]
      exact ⟨hu, hsame⟩
    rw [if_neg hmade] at hfree
    have hgrows := grows_createDirs depth
    cases hparent? : Path.parent? path with
    | none =>
      rw [hparent?] at hfree
      obtain ⟨hu, hsame⟩ := h.ensureDir hfree
      rw [if_neg hmade, if_neg (hsame ▸ hmade)]
      exact ⟨hu, hsame⟩
    | some parent =>
      rw [hparent?] at hfree
      dsimp only [Option.elim_some] at hfree
      have hparent := hgrows parent (t.ensureDir path).1
      by_cases hthere : ((t.ensureDir path).1.createDirs depth parent).2 = true
      · rw [if_pos hthere] at hfree
        have hlast := (grows_ensureDir _ path).isFree hfree
        obtain ⟨hu, hsame⟩ := h.ensureDir (hparent.isFree hlast)
        obtain ⟨hv, hsame'⟩ := ih hu hlast
        rw [if_neg hmade, if_neg (hsame ▸ hmade)]
        dsimp only [Option.elim_some]
        rw [if_pos hthere, if_pos (hsame'.trans hthere)]
        exact hv.ensureDir hfree
      · rw [if_neg hthere] at hfree
        obtain ⟨hu, hsame⟩ := h.ensureDir (hparent.isFree hfree)
        obtain ⟨hv, hsame'⟩ := ih hu hfree
        rw [if_neg hmade, if_neg (hsame ▸ hmade)]
        dsimp only [Option.elim_some]
        rw [if_neg hthere, if_neg (hsame' ▸ hthere)]
        exact ⟨hv, hsame'⟩

end AddsFile

/-! ## Files below a directory -/

theorem comesBefore_total (a b : List String) : (comesBefore a b || comesBefore b a) = true := by
  induction a generalizing b with
  | nil => rfl
  | cons x xs ih =>
    cases b with
    | nil => rfl
    | cons y ys =>
      by_cases hxy : x = y
      · subst hxy
        rw [comesBefore, comesBefore, if_pos rfl, if_pos rfl]
        exact ih ys
      · rw [comesBefore, comesBefore, if_neg hxy, if_neg (Ne.symm hxy), Bool.or_eq_true,
          decide_eq_true_iff, decide_eq_true_iff]
        by_cases hlt : x < y
        · exact Or.inl hlt
        · exact Or.inr (Decidable.byContradiction fun hgt =>
            hxy (String.le_antisymm (String.not_lt.1 hgt) (String.not_lt.1 hlt)))

/-- The order of the walk is transitive, so sorting by it is well defined. -/
theorem comesBefore_trans (a b c : List String) (hab : comesBefore a b = true)
    (hbc : comesBefore b c = true) : comesBefore a c = true := by
  induction a generalizing b c with
  | nil => rfl
  | cons x xs ih =>
    cases b with
    | nil => cases hab
    | cons y ys =>
      cases c with
      | nil => cases hbc
      | cons z zs =>
        rw [comesBefore] at hab hbc ⊢
        -- The first names that differ decide; with equal ones in front the rest does.
        by_cases hxy : x = y
        · subst hxy
          rw [if_pos rfl] at hab
          by_cases hxz : x = z
          · rw [if_pos hxz] at hbc ⊢
            exact ih ys zs hab hbc
          · rwa [if_neg hxz] at hbc ⊢
        · rw [if_neg hxy] at hab
          have hxy := of_decide_eq_true hab
          by_cases hyz : y = z
          · subst hyz
            have hne : x ≠ y := fun he => String.lt_irrefl y (he ▸ hxy)
            rw [if_neg hne]
            exact decide_eq_true hxy
          · rw [if_neg hyz] at hbc
            have hxz := String.lt_trans hxy (of_decide_eq_true hbc)
            have hne : x ≠ z := fun he => String.lt_irrefl z (he ▸ hxz)
            rw [if_neg hne]
            exact decide_eq_true hxz

namespace AddsFile

/-- A path is made canonical in the same way. -/
theorem canonical?_eq (h : AddsFile place text t t') {base : List String}
    (hbase : t.canonical? path = some base) : t'.canonical? path = some base := by
  unfold canonical? at hbase ⊢
  cases hr : t.resolve true path with
  | found p =>
    have hp : p ≠ place := fun hp => h.free.not_found hr (hp ▸ List.prefix_rfl)
    rw [h.agreesOff.resolve_eq fun hplace => hp ?_, hr]
    · rwa [hr] at hbase
    · unfold FileTree.place? at hplace
      rw [hr] at hplace
      exact Option.some.inj hplace
  | vacant p => rw [hr] at hbase; cases hbase
  | nowhere => rw [hr] at hbase; cases hbase

/-- **The file is found among the others below a directory**, which keep their order. -/
theorem filesUnder {base way : List String} (h : AddsFile (base ++ way) text t t')
    (hbase : t.canonical? path = some base) :
    Inserted ⟨way, text⟩ (t.filesUnder path) (t'.filesUnder path) := by
  have hbelow : fileBelow? base (base ++ way, .file text) = some ⟨way, text⟩ := by
    have hprefix : base.isPrefixOf (base ++ way) = true :=
      List.isPrefixOf_iff_prefix.2 (List.prefix_append ..)
    rw [fileBelow?, if_pos hprefix, List.drop_left]
  unfold FileTree.filesUnder
  rw [hbase, h.canonical?_eq hbase]
  exact (h.entries.filterMap hbelow).mergeSort (fun _ _ _ => comesBefore_trans _ _ _)
    (fun _ _ => comesBefore_total _ _)

end AddsFile

end FileTree

end TypedBindings
