import Mathlib.Data.List.Induction
import TypedBindings.Proofs.Files.MadeDirectories
import TypedBindings.Proofs.Text.Parts

/-!
# Paths and the directories on their way

A walk that leads anywhere passes through directories, and the path of a directory's parent leads to
the directory in which it stands.

* `FileTree.IsTree`: every entry stands in a directory.
* `FileTree.walk_undotted_iff`: dots in a path lead nowhere else.
* `Path.IsParent`: what the path of a parent is made of.
* `FileTree.isDir_parent`: where a path leads anywhere, its parent is a directory.
* `FileTree.not_isDir_of_empty`: nothing is found in a directory with nothing in it.
-/

namespace TypedBindings

/-! ## Names of paths -/

namespace Path

/-- A name that can stand between slashes. -/
def IsPart (name : String) : Prop := name ≠ "" ∧ '/' ∉ name.toList

/-- The names of a path are not empty and have no slash in them. -/
theorem isPart_of_mem_names {path name : String} (h : name ∈ names path) : IsPart name := by
  unfold names Text.words at h
  obtain ⟨cs, hcs, rfl⟩ := List.mem_map.1 h
  obtain ⟨hpiece, hne⟩ := List.mem_filter.1 hcs
  refine ⟨?_, ?_⟩
  · intro he
    have hnil : cs = [] := by simpa using congrArg String.toList he
    rw [hnil] at hne
    cases hne
  · rw [String.toList_ofList]
    intro hslash
    have hno := Text.not_isBreak_of_mem_pieces hpiece '/' hslash
    cases hno

/-- A path of several names is its first name, a slash and the rest. -/
theorem toList_intercalate_cons (n m : String) (rest : List String) :
    ("/".intercalate (n :: m :: rest)).toList =
      n.toList ++ '/' :: ("/".intercalate (m :: rest)).toList := by
  rw [String.intercalate_cons_cons, String.toList_append, String.toList_append, List.append_assoc]
  rfl

theorem exists_intercalate_cons (n : String) (rest : List String) :
    ∃ more, ("/".intercalate (n :: rest)).toList = n.toList ++ more := by
  cases rest with
  | nil => exact ⟨[], by rw [String.intercalate_singleton, List.append_nil]⟩
  | cons m rest => exact ⟨_, toList_intercalate_cons n m rest⟩

/-- Names with slashes between them are split at these slashes and no others. -/
theorem words_intercalate {parts : List String} (h : ∀ x ∈ parts, IsPart x) :
    Text.words (· == '/') ("/".intercalate parts).toList = parts.map String.toList := by
  induction parts with
  | nil => rfl
  | cons x rest ih =>
    obtain ⟨hne, hslash⟩ := h x List.mem_cons_self
    cases rest with
    | nil => exact words_name hne hslash
    | cons y more =>
      have hrest := ih fun z hz => h z (List.mem_cons_of_mem _ hz)
      rw [toList_intercalate_cons, Text.words_append (by rfl), words_name hne hslash, hrest]
      rfl

/-- A path that is put together of names has these names. -/
theorem names_intercalate {parts : List String} (h : ∀ x ∈ parts, IsPart x) :
    names ("/".intercalate parts) = parts := by
  unfold names
  rw [words_intercalate h, List.map_map]
  simp

theorem names_slash_intercalate {parts : List String} (h : ∀ x ∈ parts, IsPart x) :
    names ("/" ++ "/".intercalate parts) = parts := by
  have hchars : ("/" ++ "/".intercalate parts).toList = '/' :: ("/".intercalate parts).toList := by
    rw [String.toList_append]; rfl
  unfold names
  rw [hchars, Text.words_cons (by rfl), words_intercalate h, List.map_map]
  simp

/-- A path's names without those that lead nowhere. -/
def undotted (names : List String) : List String := names.filter (· ≠ ".")

theorem undotted_append (names more : List String) :
    undotted (names ++ more) = undotted names ++ undotted more := List.filter_append ..

theorem undotted_undotted (names : List String) : undotted (undotted names) = undotted names := by
  unfold undotted
  rw [List.filter_filter]
  simp

/-- Dots that stand for the same place are dropped either way. -/
theorem undotted_steps (path : String) : undotted (steps path) = undotted (names path) := by
  unfold steps
  dsimp only
  split
  · exact undotted_undotted _
  · rw [undotted_append]
    have hdrop := undotted_undotted ((names path).drop 1)
    unfold undotted at hdrop ⊢
    rw [hdrop, ← List.filter_append, List.take_append_drop]

theorem mem_names_of_mem_steps {path name : String} (h : name ∈ steps path) :
    name ∈ names path := by
  unfold steps at h
  dsimp only at h
  split at h
  · exact (List.mem_filter.1 h).1
  · rcases List.mem_append.1 h with h | h
    · exact List.mem_of_mem_take h
    · exact List.mem_of_mem_drop (List.mem_filter.1 h).1

/-- Splitting a text makes no new characters. -/
theorem mem_of_mem_pieces {isBreak : Char → Bool} {cs w : List Char}
    (hw : w ∈ Text.pieces isBreak cs) {c : Char} (hc : c ∈ w) : c ∈ cs := by
  induction cs generalizing w with
  | nil =>
    rw [List.mem_singleton.1 hw] at hc
    exact hc
  | cons d rest ih =>
    rw [Text.pieces] at hw
    split at hw
    · rcases List.mem_cons.1 hw with rfl | hw
      · exact absurd hc List.not_mem_nil
      · exact List.mem_cons_of_mem _ (ih hw hc)
    · cases hrest : Text.pieces isBreak rest with
      | nil => exact absurd hrest (Text.pieces_ne_nil rest)
      | cons v vs =>
        rw [hrest, List.modifyHead_cons] at hw
        rcases List.mem_cons.1 hw with rfl | hw
        · rcases List.mem_cons.1 hc with rfl | hc
          · exact List.mem_cons_self
          · exact List.mem_cons_of_mem _ (ih (w := v) (by rw [hrest]; exact List.mem_cons_self) hc)
        · exact List.mem_cons_of_mem _
            (ih (w := w) (by rw [hrest]; exact List.mem_cons_of_mem _ hw) hc)

theorem mem_of_mem_names {path name : String} (h : name ∈ names path) {c : Char}
    (hc : c ∈ name.toList) : c ∈ path.toList := by
  unfold names Text.words at h
  obtain ⟨cs, hcs, rfl⟩ := List.mem_map.1 h
  rw [String.toList_ofList] at hc
  exact mem_of_mem_pieces (List.mem_filter.1 hcs).1 hc

theorem mem_intercalate {parts : List String} {c : Char}
    (hc : c ∈ ("/".intercalate parts).toList) : c = '/' ∨ ∃ x ∈ parts, c ∈ x.toList := by
  rw [String.toList_intercalate] at hc
  rcases Text.mem_intercalate hc with hslash | ⟨cs, hcs, hmem⟩
  · exact Or.inl (List.mem_singleton.1 hslash)
  · obtain ⟨x, hx, rfl⟩ := List.mem_map.1 hcs
    exact Or.inr ⟨x, hx, hmem⟩

/-- A path that starts with a name is relative. -/
theorem isAbsolute_intercalate {parts : List String} (h : ∀ x ∈ parts, IsPart x) :
    isAbsolute ("/".intercalate parts) = false := by
  cases parts with
  | nil => rfl
  | cons x rest =>
    obtain ⟨hne, hslash⟩ := h x List.mem_cons_self
    obtain ⟨more, hmore⟩ := exists_intercalate_cons x rest
    unfold isAbsolute
    rw [hmore]
    cases hx : x.toList with
    | nil => exact absurd hx (by simpa using hne)
    | cons c cs =>
      have hc : c ≠ '/' := fun e => hslash (by rw [hx, e]; exact List.mem_cons_self)
      simpa using hc

/-- **What a path's parent is made of**: the steps of the path without the last one. -/
structure IsParent (path parent : String) : Prop where
  steps : steps path ≠ []
  names : names parent = (Path.steps path).dropLast
  isAbsolute : isAbsolute parent = isAbsolute path
  chars : '\x00' ∈ parent.toList → '\x00' ∈ path.toList
  notDot : parent ≠ "" → (Path.steps path).getLast? ≠ some "."

/-- The last name of a path is its last step, unless it is a dot. -/
theorem steps_getLast? {path last : String} (h : (names path).getLast? = some last)
    (hdot : last ≠ ".") : (steps path).getLast? = some last := by
  have hkept : ∀ names : List String, names.getLast? = some last →
      (names.filter (· ≠ ".")).getLast? = some last := by
    intro names hlast
    obtain ⟨front, rfl⟩ := List.getLast?_eq_some_iff.1 hlast
    rw [List.filter_append, List.filter_cons_of_pos (by simpa using hdot), List.filter_nil,
      List.getLast?_concat]
  unfold steps
  dsimp only
  split
  · exact hkept _ h
  cases hnames : names path with
  | nil => rw [hnames] at h; cases h
  | cons x rest =>
    rw [hnames] at h
    cases rest with
    | nil => exact h
    | cons y more =>
      rw [List.getLast?_cons_cons] at h
      show (x :: (y :: more).filter (· ≠ ".")).getLast? = some last
      rw [List.getLast?_cons, hkept _ h]
      rfl

/-- Only the first step of a relative path can be a dot. -/
theorem steps_getLast?_dot {path : String} (h : (steps path).getLast? = some ".") :
    isAbsolute path = false ∧ steps path = ["."] := by
  have hkept : ∀ names : List String, (names.filter (· ≠ ".")).getLast? ≠ some "." := by
    intro names hlast
    have hmem := (List.mem_filter.1 (List.mem_of_getLast? hlast)).2
    simp at hmem
  unfold steps at h ⊢
  dsimp only at h ⊢
  split at h
  · exact absurd h (hkept _)
  next habs =>
  rw [if_neg habs]
  refine ⟨by simpa using habs, ?_⟩
  rw [List.getLast?_append] at h
  cases hrest : ((names path).drop 1).filter (· ≠ ".") with
  | cons x rest =>
    have hsome : (((names path).drop 1).filter (· ≠ ".")).getLast? = some "." := by
      rw [hrest, List.getLast?_cons, Option.some_or] at h
      rw [hrest, List.getLast?_cons]
      exact h
    exact absurd hsome (hkept _)
  | nil =>
    rw [hrest] at h
    cases hnames : names path with
    | nil => rw [hnames] at h; cases h
    | cons x rest =>
      rw [hnames] at h
      cases h
      rfl

/-- A parent that is given is the path without its last step. -/
theorem isParent_of_parent? {path parent : String} (h : parent? path = some parent) :
    IsParent path parent := by
  have hsub : ∀ x ∈ (Path.steps path).dropLast, x ∈ Path.names path := fun x hx =>
    mem_names_of_mem_steps (List.dropLast_subset _ hx)
  have hparts : ∀ x ∈ (Path.steps path).dropLast, IsPart x := fun x hx =>
    isPart_of_mem_names (hsub x hx)
  have hchars : '\x00' ∈ ("/".intercalate (Path.steps path).dropLast).toList →
      '\x00' ∈ path.toList := by
    intro hc
    rcases mem_intercalate hc with hslash | ⟨x, hx, hc⟩
    · cases hslash
    · exact mem_of_mem_names (hsub x hx) hc
  have hdot : parent ≠ "" → (Path.steps path).getLast? ≠ some "." := by
    intro hne hlast
    obtain ⟨habs, hsteps⟩ := steps_getLast?_dot hlast
    unfold parent? at h
    rw [hsteps, habs] at h
    cases h
    exact hne rfl
  unfold parent? at h
  cases hsteps : Path.steps path with
  | nil => rw [hsteps] at h; cases h
  | cons x rest =>
    rw [hsteps] at h hparts hchars
    cases h
    -- The slash in front of an absolute parent adds no name and no null character.
    by_cases habs : Path.isAbsolute path = true
    · rw [if_pos habs]
      rw [if_pos habs] at hdot
      refine ⟨by rw [hsteps]; exact List.cons_ne_nil x rest, ?_, ?_, fun hc => hchars ?_, hdot⟩
      · rw [hsteps]
        exact names_slash_intercalate hparts
      · rw [habs]
        unfold Path.isAbsolute
        rw [String.toList_append]
        rfl
      · rw [String.toList_append] at hc
        rcases List.mem_append.1 hc with hc | hc
        · cases List.mem_singleton.1 hc
        · exact hc
    · rw [if_neg habs, String.empty_append] at hdot ⊢
      refine ⟨by rw [hsteps]; exact List.cons_ne_nil x rest, ?_, ?_, hchars, hdot⟩
      · rw [hsteps]
        exact names_intercalate hparts
      · rw [isAbsolute_intercalate hparts]
        simpa using habs

end Path

namespace FileTree

open TypedBindings.Path

variable {t : FileTree} {path : String} {place : List String}

/-! ## Trees -/

/-- **A tree in which every entry stands in a directory**, and the working directory is there. -/
structure IsTree (t : FileTree) : Prop where
  workDir : t.entry? t.workDir = some .dir
  parents : ∀ place e, t.entry? place = some e → t.entry? place.dropLast = some .dir

/-- Something is found at every place that is listed. -/
theorem exists_entry_of_mem {x : List String × Entry} (h : x ∈ t.entries) :
    ∃ e, t.entry? x.1 = some e := by
  unfold entry?
  split
  · exact ⟨_, rfl⟩
  · cases hl : t.entries.lookup x.1 with
    | some e => exact ⟨e, rfl⟩
    | none =>
      have hne := List.lookup_eq_none_iff.1 hl x h
      simp at hne

/-- Which trees these are can be seen from their entries. -/
theorem isTree_iff : t.IsTree ↔ t.entry? t.workDir = some .dir ∧
    ∀ x ∈ t.entries, t.entry? x.1.dropLast = some .dir := by
  refine ⟨fun h => ⟨h.workDir, fun x hx => ?_⟩, fun ⟨hwork, hall⟩ => ⟨hwork, fun p e he => ?_⟩⟩
  · obtain ⟨e, he⟩ := exists_entry_of_mem hx
    exact h.parents x.1 e he
  · by_cases hp : p = []
    · rw [hp]
      rfl
    · exact hall (p, e) (mem_of_entry_eq_some he hp)

instance (t : FileTree) : Decidable t.IsTree := decidable_of_iff _ isTree_iff.symm

/-- Every place above one with something there has something there too. -/
theorem IsTree.exists_entry_of_prefix (ht : t.IsTree) {p q : List String} (hqp : q <+: p)
    {e : Entry} (he : t.entry? p = some e) : ∃ e, t.entry? q = some e := by
  obtain ⟨more, rfl⟩ := hqp
  induction more using List.reverseRecOn generalizing e with
  | nil => exact ⟨e, by rwa [List.append_nil] at he⟩
  | append_singleton front name ih =>
    have hparent := ht.parents _ _ he
    rw [← List.append_assoc, List.dropLast_concat] at hparent
    exact ih hparent

/-- Where nothing stands, nothing stands below. -/
theorem IsTree.not_prefix (ht : t.IsTree) (h : t.entry? place = none) {x : List String × Entry}
    (hx : x ∈ t.entries) : ¬ place <+: x.1 := by
  intro hbelow
  obtain ⟨e, he⟩ := exists_entry_of_mem hx
  obtain ⟨e', he'⟩ := ht.exists_entry_of_prefix hbelow he
  rw [h] at he'
  cases he'

/-- Nothing is taken away where nothing stands. -/
theorem IsTree.erase_eq (ht : t.IsTree) (h : t.entry? place = none) : t.erase place = t := by
  have hall : t.entries.filter (fun x => !place.isPrefixOf x.1) = t.entries := by
    rw [List.filter_eq_self]
    intro x hx
    have hnot : place.isPrefixOf x.1 = false := by
      rw [← Bool.not_eq_true, List.isPrefixOf_iff_prefix]
      exact ht.not_prefix h hx
    rw [hnot]
    rfl
  unfold erase
  rw [hall]

/-- A place is taken away with all that is below it. -/
theorem entry?_erase (hplace : place ≠ []) (p : List String) :
    entry? (t.erase place) p = if place <+: p then none else t.entry? p := by
  have hlookup : ∀ entries : List (List String × Entry),
      (entries.filter fun x => !place.isPrefixOf x.1).lookup p =
        if place <+: p then none else entries.lookup p := by
    intro entries
    induction entries with
    | nil => simp
    | cons x rest ih =>
      obtain ⟨k, v⟩ := x
      -- An entry that is dropped could answer for a place below only.
      by_cases hk : place <+: k
      · have hgone : ¬ (!place.isPrefixOf k) = true := by
          rw [List.isPrefixOf_iff_prefix.2 hk]
          decide
        rw [List.filter_cons_of_neg (a := (k, v)) hgone, ih, List.lookup_cons]
        by_cases hp : place <+: p
        · rw [if_pos hp, if_pos hp]
        · have hne : p ≠ k := fun he => hp (he ▸ hk)
          rw [if_neg hp, if_neg hp, beq_false_of_ne hne]
      · have hkept : (!place.isPrefixOf k) = true := by
          rw [Bool.not_eq_true', ← Bool.not_eq_true, List.isPrefixOf_iff_prefix]
          exact hk
        rw [List.filter_cons_of_pos (a := (k, v)) hkept, List.lookup_cons, List.lookup_cons, ih]
        by_cases hpk : p = k
        · subst hpk
          simp only [beq_self_eq_true, if_neg hk]
        · rw [beq_false_of_ne hpk]
  unfold entry? erase
  dsimp only
  rw [hlookup]
  by_cases hp : p = []
  · have hnot : ¬ place <+: p := fun h => hplace (List.prefix_nil.1 (hp ▸ h))
    rw [if_neg hnot, if_neg hnot]
  · have hne : p.isEmpty = false := by simpa using hp
    rw [hne]
    rfl

/-- A tree without what stands at a place, or below it, is a tree. -/
theorem IsTree.erase (ht : t.IsTree) (hwork : ¬ place <+: t.workDir) : (t.erase place).IsTree := by
  have hne : place ≠ [] := by
    rintro rfl
    exact hwork List.nil_prefix
  refine ⟨?_, fun p e he => ?_⟩
  · show entry? (t.erase place) t.workDir = _
    rw [entry?_erase hne, if_neg hwork]
    exact ht.workDir
  · rw [entry?_erase hne] at he ⊢
    split at he
    · cases he
    · next hp =>
      rw [if_neg fun h => hp (h.trans (List.dropLast_prefix p))]
      exact ht.parents p e he

/-! ## Walks through directories -/

/-- In a tree, a walk goes on in directories only. -/
theorem IsTree.entry?_of_turn_into (ht : t.IsTree) {here p : List String} {name : String}
    (hhere : t.entry? here = some .dir) (h : t.turn here name = .into p) :
    t.entry? p = some .dir := by
  rcases turn_into h with ⟨-, rfl⟩ | ⟨-, rfl⟩ | ⟨-, he⟩
  · exact hhere
  · exact ht.parents _ _ hhere
  · exact he

/-- Whatever is vacant is so in a directory. -/
theorem IsTree.vacant_walkWith (ht : t.IsTree) {follow : Bool}
    {jump : List String → List String → Target}
    (hjump : ∀ here names, t.entry? here = some .dir → jump here names = .vacant place →
      place ≠ [] ∧ t.entry? place.dropLast = some .dir)
    {here names : List String} (hhere : t.entry? here = some .dir)
    (h : t.walkWith follow jump here names = .vacant place) :
    place ≠ [] ∧ t.entry? place.dropLast = some .dir := by
  induction names generalizing here with
  | nil => cases h
  | cons name rest ih =>
    rw [walkWith_cons] at h
    cases hturn : t.turn here name with
    | into p => rw [hturn] at h; exact ih (ht.entry?_of_turn_into hhere hturn) h
    | missing p =>
      obtain ⟨rfl, -, -⟩ := turn_missing hturn
      rw [hturn] at h
      dsimp only at h
      split at h
      · cases h
        exact ⟨by simp, by rwa [List.dropLast_concat]⟩
      · cases h
    | file p => rw [hturn] at h; dsimp only at h; split at h <;> cases h
    | link p target =>
      rw [hturn] at h
      dsimp only at h
      split at h
      · cases h
      · refine hjump _ _ ?_ h
        split
        · rfl
        · exact hhere
    | nowhere => rw [hturn] at h; cases h

/-- A walk starts in a directory. -/
theorem IsTree.start (ht : t.IsTree) (path : String) :
    t.entry? (if isAbsolute path then [] else t.workDir) = some .dir := by
  split
  · rfl
  · exact ht.workDir

/-- A path that could be made has a directory above it. -/
theorem IsTree.vacant (ht : t.IsTree) {follow : Bool} (h : t.resolve follow path = .vacant place) :
    place ≠ [] ∧ t.entry? place.dropLast = some .dir := by
  have hwalk : ∀ links here names, t.entry? here = some .dir →
      t.walk follow links here names = .vacant place →
        place ≠ [] ∧ t.entry? place.dropLast = some .dir := by
    intro links
    induction links with
    | zero => exact fun here names hhere => ht.vacant_walkWith (fun _ _ _ h => by cases h) hhere
    | succ links ih => exact fun here names hhere => ht.vacant_walkWith ih hhere
  unfold resolve at h
  split at h
  · cases h
  · exact hwalk _ _ _ (ht.start path) h

/-- A tree with a directory where a path led to nothing is a tree. -/
theorem IsTree.set (ht : t.IsTree) (h : t.resolve false path = .vacant place) :
    (t.set place .dir).IsTree := by
  obtain ⟨hne, hparent⟩ := ht.vacant h
  refine ⟨?_, fun p e he => ?_⟩
  · show entry? (t.set place .dir) t.workDir = _
    rw [entry?_set hne]
    split
    · rfl
    · exact ht.workDir
  · rw [entry?_set hne] at he ⊢
    split
    · rfl
    split at he
    · next hp => rw [hp]; exact hparent
    · exact ht.parents p e he

/-- Making directories keeps the tree a tree, whether all are made or not. -/
theorem IsTree.createDirs (ht : t.IsTree) {u : FileTree} {depth : Nat} {made : Bool}
    (h : t.createDirs depth path = (u, made)) : u.IsTree := by
  have hu := createDirs_induction (fun _ _ _ h hs => hs.set h) depth path ht
  rwa [h] at hu

/-- A walk that goes further than to a place passes through a directory there. -/
theorem IsTree.enters_walkWith (ht : t.IsTree) {follow : Bool} {x : String} {more : List String}
    {jump jump' : List String → List String → Target}
    (hjump : ∀ here names, t.entry? here = some .dir → jump here (names ++ x :: more) ≠ .nowhere →
      ∃ b, jump' here names = .found b ∧ t.entry? b = some .dir)
    {here names : List String} (hhere : t.entry? here = some .dir)
    (h : t.walkWith follow jump here (names ++ x :: more) ≠ .nowhere) :
    ∃ b, t.walkWith true jump' here names = .found b ∧ t.entry? b = some .dir := by
  induction names generalizing here with
  | nil => exact ⟨here, rfl, hhere⟩
  | cons name rest ih =>
    have hmore : (rest ++ x :: more).isEmpty = false := by simp
    rw [List.cons_append, walkWith_cons] at h
    rw [walkWith_cons]
    cases hturn : t.turn here name with
    | into p => rw [hturn] at h; exact ih (ht.entry?_of_turn_into hhere hturn) h
    | missing p => rw [hturn, hmore] at h; exact absurd rfl h
    | file p => rw [hturn, hmore] at h; exact absurd rfl h
    | link p target =>
      rw [hturn, hmore] at h
      dsimp only at h ⊢
      rw [Bool.not_true, Bool.and_false]
      rw [← List.append_assoc] at h
      refine hjump _ _ ?_ h
      split
      · rfl
      · exact hhere
    | nowhere => rw [hturn] at h; exact absurd rfl h

/-- A walk that goes on behind a name has found a directory there. -/
theorem IsTree.enters_walk (ht : t.IsTree) {follow : Bool} {x : String} {more : List String}
    (links : Nat) {here names : List String} (hhere : t.entry? here = some .dir)
    (h : t.walk follow links here (names ++ x :: more) ≠ .nowhere) :
    ∃ b, t.walk true links here names = .found b ∧ t.entry? b = some .dir := by
  induction links generalizing here names with
  | zero => exact ht.enters_walkWith (fun _ _ _ h => absurd rfl h) hhere h
  | succ links ih => exact ht.enters_walkWith (fun _ _ => ih) hhere h

/-- Dots in a path to a directory lead nowhere else. -/
theorem walkWith_undotted_iff {jump : List String → List String → Target} {b : List String}
    (hb : t.entry? b = some .dir)
    (hjump : ∀ here names names', undotted names = undotted names' →
      (jump here names = .found b ↔ jump here names' = .found b))
    (here names : List String) :
    t.walkWith true jump here names = .found b ↔
      t.walkWith true jump here (undotted names) = .found b := by
  induction names generalizing here with
  | nil => rfl
  | cons name rest ih =>
    by_cases hdot : name = "."
    · subst hdot
      have hgone : undotted ("." :: rest) = undotted rest := List.filter_cons_of_neg (by simp)
      rw [hgone, ← ih here, walkWith_cons, turn_here]
    · have hkept : undotted (name :: rest) = name :: undotted rest :=
        List.filter_cons_of_pos (by simpa using hdot)
      rw [hkept, walkWith_cons, walkWith_cons]
      cases hturn : t.turn here name with
      | into p => exact ih p
      | missing p =>
        have hvacant : ∀ more : List String,
            (if more.isEmpty then Target.vacant p else .nowhere) ≠ .found b := by
          intro more
          split <;> exact fun h => by cases h
        exact iff_of_false (hvacant rest) (hvacant _)
      | file p =>
        obtain ⟨-, text, he⟩ := turn_file hturn
        have hfile : ∀ more : List String,
            (if more.isEmpty then Target.found p else .nowhere) ≠ .found b := by
          intro more h
          split at h
          · cases h
            rw [he] at hb
            cases hb
          · cases h
        exact iff_of_false (hfile rest) (hfile _)
      | link p target =>
        dsimp only
        rw [Bool.not_true, Bool.and_false, Bool.and_false]
        -- The names of the link come first on both sides, and what follows them differs in dots.
        refine hjump _ _ _ ?_
        rw [undotted_append, undotted_append, undotted_undotted]
      | nowhere => exact Iff.rfl

/-- Dots that stand for the same place make no difference to a walk. -/
theorem walk_undotted_iff {b : List String} (hb : t.entry? b = some .dir) (links : Nat)
    (here names : List String) :
    t.walk true links here names = .found b ↔
      t.walk true links here (undotted names) = .found b := by
  induction links generalizing here names with
  | zero => exact walkWith_undotted_iff hb (fun _ _ _ _ => Iff.rfl) here names
  | succ links ih =>
    refine walkWith_undotted_iff hb (fun here names names' hsame => ?_) here names
    rw [ih here names, hsame, ← ih here names']

theorem walk_congr {b : List String} (hb : t.entry? b = some .dir) {links : Nat}
    {here names names' : List String} (hsame : undotted names = undotted names')
    (h : t.walk true links here names = .found b) : t.walk true links here names' = .found b := by
  rw [walk_undotted_iff hb] at h ⊢
  rwa [← hsame]

/-! ## Parents -/

variable {parent : String}

theorem undotted_names_of_isParent (h : IsParent path parent) {last : String}
    (hlast : (steps path).getLast? = some last) (hdot : last ≠ ".") :
    undotted (names path) = undotted (names parent) ++ [last] := by
  obtain ⟨front, hfront⟩ := List.getLast?_eq_some_iff.1 hlast
  have hone : undotted [last] = [last] := List.filter_cons_of_pos (by simpa using hdot)
  rw [← undotted_steps, h.names, hfront, List.dropLast_concat, undotted_append, hone]

/-- The names of a path in front of its last step and behind it. -/
theorem exists_names_of_isParent (h : IsParent path parent) {last : String}
    (hlast : (steps path).getLast? = some last) (hdot : last ≠ ".") :
    ∃ front back, names path = front ++ last :: back ∧ undotted front = undotted (names parent) ∧
      undotted back = [] := by
  obtain ⟨front, rest, hnames, hfront, hrest⟩ :=
    List.filter_eq_append_iff.1 (undotted_names_of_isParent h hlast hdot)
  obtain ⟨dots, back, hrest, hdots, -, hback⟩ := List.filter_eq_cons_iff.1 hrest
  refine ⟨front ++ dots, back, by rw [hnames, hrest, List.append_assoc], ?_, hback⟩
  have hgone : undotted dots = [] := List.filter_eq_nil_iff.2 fun x hx => by
    simpa using hdots x hx
  rw [undotted_append, hgone, List.append_nil]
  exact hfront

theorem not_clean_of_isParent (h : IsParent path parent) (hne : parent ≠ "")
    (hclean : ¬ (path.isEmpty || path.toList.contains '\x00') = true) :
    ¬ (parent.isEmpty || parent.toList.contains '\x00') = true := by
  have hempty : parent.isEmpty = false := by simpa using hne
  rw [hempty, Bool.false_or]
  intro hbad
  refine hclean ?_
  have hchars := h.chars (by simpa using hbad)
  rw [Bool.or_eq_true]
  exact Or.inr (by simpa using hchars)

/-- What is found under the path of a parent is found by following its names. -/
theorem resolve_parent_iff (h : IsParent path parent) (hne : parent ≠ "")
    (hclean : ¬ (path.isEmpty || path.toList.contains '\x00') = true) {b : List String}
    (hb : t.entry? b = some .dir) :
    t.resolve true parent = .found b ↔
      t.walk true linkLimit (if isAbsolute path then [] else t.workDir) (names parent) =
        .found b := by
  have hdots : undotted (names parent ++ if endsInSlash parent then ["."] else []) =
      undotted (names parent) := by
    rw [undotted_append]
    split <;> exact List.append_nil _
  unfold resolve
  rw [if_neg (not_clean_of_isParent h hne hclean), h.isAbsolute]
  exact ⟨walk_congr hb hdots, walk_congr hb hdots.symm⟩

/-- **Where a path leads anywhere, its parent is a directory.** -/
theorem IsTree.isDir_parent (ht : t.IsTree) (h : IsParent path parent) (hne : parent ≠ "")
    {follow : Bool} (hpath : t.resolve follow path ≠ .nowhere) : t.isDir parent = true := by
  obtain ⟨last, hlast⟩ : ∃ last, (steps path).getLast? = some last :=
    Option.isSome_iff_exists.1 (by simpa using h.steps)
  obtain ⟨front, back, hnames, hfront, -⟩ := exists_names_of_isParent h hlast
    fun hdot => h.notDot hne (hdot ▸ hlast)
  have hclean : ¬ (path.isEmpty || path.toList.contains '\x00') = true := by
    intro hbad
    unfold resolve at hpath
    exact hpath (if_pos hbad)
  unfold resolve at hpath
  rw [if_neg hclean, hnames, List.append_assoc, List.cons_append] at hpath
  obtain ⟨b, hwalk, hb⟩ := ht.enters_walk linkLimit (ht.start path) hpath
  exact isDir_iff.2 ⟨b, (resolve_parent_iff h hne hclean hb).2 (walk_congr hb hfront hwalk), hb⟩

/-- A walk through a directory with nothing in it ends there. -/
theorem not_found_of_empty {last : String} (hname : IsEntryName last) {q b : List String}
    (hempty : ∀ name, t.entry? (q ++ [name]) = none) {here names : List String}
    (hq : t.walk true linkLimit here names = .found q) {e : Entry} (he : t.entry? b = some e) :
    t.walk true linkLimit here (names ++ [last]) ≠ .found b := by
  intro hb
  have hthere : t.walk true linkLimit here (names ++ [last]) ≠ .nowhere := by
    rw [hb]
    exact fun h => by cases h
  obtain ⟨base, hbase, hin⟩ := leadsInto_walk hname linkLimit hthere
  cases hq.symm.trans hbase
  have hplace := hin fun target => by rw [hempty]; exact fun h => by cases h
  rw [hb] at hplace
  cases hplace
  rw [hempty] at he
  cases he

/-- A path that leads somewhere is not empty and has no null character. -/
theorem clean_of_found {follow : Bool} {b : List String} (h : t.resolve follow path = .found b) :
    ¬ (path.isEmpty || path.toList.contains '\x00') = true := by
  intro hbad
  unfold resolve at h
  rw [if_pos hbad] at h
  cases h

section Empty

variable {last : String} {q : List String} (h : IsParent path parent) (hne : parent ≠ "")
  (hlast : (steps path).getLast? = some last) (hname : IsEntryName last)
  (hq : t.resolve true parent = .found q) (hdir : t.entry? q = some .dir)
  (hempty : ∀ name, t.entry? (q ++ [name]) = none)

include h hne hlast hname hq hdir hempty

/-- **No directory is found in a directory with nothing in it.** -/
theorem not_isDir_of_empty : t.isDir path = false := by
  rw [← Bool.not_eq_true]
  intro hpath
  obtain ⟨b, hb, he⟩ := isDir_iff.1 hpath
  have hclean := clean_of_found hb
  have hsame : undotted (names path ++ if endsInSlash path then ["."] else []) =
      undotted (names parent ++ [last]) := by
    have hone : undotted [last] = [last] := List.filter_cons_of_pos (by simpa using hname.ne_here)
    rw [undotted_append, undotted_append, hone, undotted_names_of_isParent h hlast hname.ne_here]
    split <;> exact List.append_nil _
  unfold resolve at hb
  rw [if_neg hclean] at hb
  exact not_found_of_empty hname hempty ((resolve_parent_iff h hne hclean hdir).1 hq) he
    (walk_congr he hsame hb)

/-- Nothing at all is found there, if the path has neither dots nor a slash at its end. -/
theorem not_hasEntry_of_empty (hslash : endsInSlash path = false)
    (hend : (names path).getLast? = some last) : t.hasEntry path = false := by
  rw [← Bool.not_eq_true]
  intro hpath
  obtain ⟨e, he⟩ := Option.isSome_iff_exists.1 hpath
  unfold lookup at he
  cases hb : t.resolve true path with
  | vacant p => rw [hb] at he; cases he
  | nowhere => rw [hb] at he; cases he
  | found b =>
    rw [hb] at he
    have hclean := clean_of_found hb
    obtain ⟨front, back, hnames, hfront, hback⟩ := exists_names_of_isParent h hlast hname.ne_here
    -- Nothing follows the last name: neither a name nor a dot.
    have hnil : back = [] := by
      cases hlast? : back.getLast? with
      | none => exact List.getLast?_eq_none_iff.1 hlast?
      | some x =>
        have hx : x = last := by
          rw [hnames, List.getLast?_append, List.getLast?_cons, hlast?] at hend
          exact Option.some.inj hend
        have hdot : x = "." := by
          simpa using List.filter_eq_nil_iff.1 hback x (List.mem_of_getLast? hlast?)
        exact absurd (hx ▸ hdot) hname.ne_here
    have hwalk := walk_congr hdir hfront.symm ((resolve_parent_iff h hne hclean hdir).1 hq)
    unfold resolve at hb
    rw [if_neg hclean, hslash, hnames, hnil] at hb
    exact not_found_of_empty hname hempty hwalk he (by simpa using hb)

end Empty

end FileTree

end TypedBindings
