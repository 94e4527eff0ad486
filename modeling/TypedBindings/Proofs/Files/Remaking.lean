import Mathlib.Data.List.TakeWhile
import TypedBindings.Proofs.Files.Parents

/-!
# Directories that are made again

A directory that was made is cleared and made again. Along a path that goes up behind a name, making
the directories can lead to something that stood there before; along any other one, the directory
is the last thing that was made, and there is nothing in it.

* `FileTree.createDirs_again`: what cannot be made cannot be made the second time either.
* `Path.GoesUpFirst`: a path that goes up at its beginning alone.
* `FileTree.exists_vacant_of_createDirs`: along such a path, what was there is not reached by making
  directories.
* `FileTree.IsSteady`: the path is of that kind, or its parent is there.
* `FileTree.IsSteady.hasEntry_eq_false`: where a steady path's directory cannot be made, there is
  nothing.
-/

namespace TypedBindings

/-! ## Paths that go up -/

namespace Path

variable {path parent last : String}

/-- **A path that goes up at its beginning alone**: behind a name there is no way up. -/
def GoesUpFirst (path : String) : Prop :=
  ".." ∉ (undotted (names path)).dropWhile (· = "..")

instance (path : String) : Decidable (GoesUpFirst path) :=
  inferInstanceAs (Decidable (¬ _ ∈ _))

/-- The last step of a path that has a parent. -/
theorem exists_last_of_isParent (h : IsParent path parent) (hne : parent ≠ "") :
    ∃ last, (steps path).getLast? = some last ∧ IsPart last ∧ last ≠ "." ∧
      undotted (names path) = undotted (names parent) ++ [last] := by
  obtain ⟨last, hlast⟩ : ∃ last, (steps path).getLast? = some last :=
    Option.isSome_iff_exists.1 (by simpa using h.steps)
  have hdot : last ≠ "." := fun hdot => h.notDot hne (hdot ▸ hlast)
  exact ⟨last, hlast, isPart_of_mem_names (mem_names_of_mem_steps (List.mem_of_getLast? hlast)),
    hdot, FileTree.undotted_names_of_isParent h hlast hdot⟩

theorem goesUpFirst_of_isParent (h : IsParent path parent) (hne : parent ≠ "")
    (hup : GoesUpFirst path) : GoesUpFirst parent := by
  obtain ⟨last, -, -, -, hnames⟩ := exists_last_of_isParent h hne
  unfold GoesUpFirst at hup ⊢
  rw [hnames, List.dropWhile_append] at hup
  split at hup
  · next hnone =>
    rw [List.isEmpty_iff.1 hnone]
    exact List.not_mem_nil
  · exact fun hmem => hup (List.mem_append_left _ hmem)

/-- Only ways up lead to one. -/
theorem GoesUpFirst.eq_up (hup : GoesUpFirst path)
    (hnames : undotted (names path) = undotted (names parent) ++ [".."]) :
    ∀ x ∈ undotted (names parent), x = ".." := by
  unfold GoesUpFirst at hup
  rw [hnames, List.dropWhile_append] at hup
  split at hup
  · next hnone =>
    intro x hx
    have hall := List.dropWhile_eq_nil_iff.1 (List.isEmpty_iff.1 hnone) x hx
    simpa using hall
  · exact absurd (List.mem_append_right _ (List.mem_singleton.2 rfl)) hup

theorem goesUpFirst_join {dir name : String} (hdir : dir ≠ "") (hname : IsEntryName name)
    (h : GoesUpFirst dir) : GoesUpFirst (join dir name) := by
  have hone : undotted [name] = [name] := List.filter_cons_of_pos (by simpa using hname.ne_here)
  have hkept : [name].dropWhile (· = "..") = [name] :=
    List.dropWhile_cons_of_neg (by simpa using hname.ne_up)
  have hnot : ".." ∉ [name] := fun hup => hname.ne_up (List.mem_singleton.1 hup).symm
  unfold GoesUpFirst at h ⊢
  rw [names_join hdir hname, undotted_append, hone, List.dropWhile_append]
  split
  · rw [hkept]
    exact hnot
  · exact fun hmem => (List.mem_append.1 hmem).elim h hnot

/-- A path that ends with a name leads anywhere only if it does so without the name. -/
theorem clean_join {dir name : String} (hdir : dir ≠ "") (hname : IsEntryName name)
    (hnull : '\x00' ∉ name.toList)
    (hclean : ¬ (dir.isEmpty || dir.toList.contains '\x00') = true) :
    ¬ ((join dir name).isEmpty || (join dir name).toList.contains '\x00') = true := by
  obtain ⟨front, hfront, hjoin⟩ := join_eq hdir hname
  have hempty : (join dir name).isEmpty = false := by
    have hne : join dir name ≠ "" := by
      intro he
      rw [he] at hjoin
      cases front <;> cases hjoin
    simpa using hne
  have hdirNull : '\x00' ∉ dir.toList := by
    intro hmem
    exact hclean (by simp [hmem])
  have hfrontNull : '\x00' ∉ front := by
    rcases hfront with hfront | hfront
    · rwa [hfront] at hdirNull
    · rw [hfront] at hdirNull
      exact fun hmem => hdirNull (List.mem_append_left _ hmem)
  rw [hempty, Bool.false_or, hjoin]
  simp [hfrontNull, hnull]

end Path

namespace FileTree

open TypedBindings.Path

variable {t u : FileTree} {path parent : String}

/-! ## What is there -/

theorem not_vacant_of_isDir (h : t.isDir path = true) (p : List String) :
    t.resolve false path ≠ .vacant p := by
  intro hp
  obtain ⟨q, hq, he⟩ := isDir_iff.1 h
  have hpart : t.IsPartOf (t.set p .dir) := (grows_set (entry?_of_vacant hp) .dir).isPartOf
  have hplace : (t.resolve true path).place? = some q := by
    rw [hq]; rfl
  have hsame := hpart.resolve_eq_found (hpart.entry?_eq he) id hplace
  rw [resolve_set_dir hp true] at hsame
  cases hsame
  rw [entry?_of_vacant hp] at he
  cases he

theorem ensureDir_of_isDir (h : t.isDir path = true) : t.ensureDir path = (t, true) := by
  rcases ensureDir_eq t path with ⟨p, hp, -⟩ | he
  · exact absurd hp (not_vacant_of_isDir h p)
  · rw [he, h]

/-- What is there is not made. -/
theorem createDirs_of_isDir (h : path ≠ "" → t.isDir path = true) (depth : Nat) :
    t.createDirs depth path = (t, true) := by
  by_cases hpath : path = ""
  · rw [hpath]
    exact createDirs_empty t depth
  · exact createDirs_of_ensureDir hpath (ensureDir_of_isDir (h hpath)) depth

/-! ## What cannot be made -/

theorem createDirs_succ_eq_false {depth : Nat} {made : Bool} (hpath : path ≠ "")
    (hparent : parent? path = some parent) (hensure : t.ensureDir path = (t, false))
    (hdirs : t.createDirs depth parent = (t, made)) :
    t.createDirs (depth + 1) path = (t, false) := by
  have hempty : ¬ path.isEmpty = true := by simpa using hpath
  rw [createDirs_succ, if_neg hempty, hparent, hensure]
  simp only [Bool.false_eq_true, if_false, Option.elim_some, hdirs, hensure]
  cases made <;> rfl

/-- Where the parent of a path is no directory, the path leads nowhere. -/
theorem IsTree.nowhere (ht : t.IsTree) (h : parent? path = some parent) (hne : parent ≠ "")
    (hnot : t.isDir parent = false) (follow : Bool) : t.resolve follow path = .nowhere := by
  by_contra hpath
  rw [ht.isDir_parent (isParent_of_parent? h) hne hpath] at hnot
  cases hnot

/-- **What cannot be made** cannot be made the second time either. -/
theorem createDirs_again (ht : t.IsTree) {depth : Nat} (h : t.createDirs depth path = (u, false)) :
    u.isDir path = false ∧ u.createDirs depth path = (u, false) := by
  induction depth using Nat.strongRecOn generalizing path with
  | ind depth ih =>
    have hpath := ne_empty_of_createDirs h
    rcases createDirs_cases hpath h with
      hu | ⟨rest, parent, rfl, hparent, -, ⟨hu, -⟩ | ⟨s, hs, hu⟩⟩
    · obtain ⟨rfl, hnot⟩ := ensureDir_eq_false hu
      exact ⟨hnot, h⟩
    · -- The parent cannot be made, so the path leads nowhere.
      obtain ⟨hnot, hagain⟩ := ih rest rest.lt_succ_self hu
      have hnowhere := (ht.createDirs hu).nowhere hparent (ne_empty_of_createDirs hu) hnot
      have hdir : u.isDir path = false := by
        unfold isDir lookup
        rw [hnowhere true]
      have hensure : u.ensureDir path = (u, false) := by
        unfold ensureDir createDir
        rw [hnowhere false, ← hdir]
      exact ⟨hdir, createDirs_succ_eq_false hpath hparent hensure hagain⟩
    · -- The parent is there, and the directory still cannot be made in it.
      obtain ⟨rfl, hnot⟩ := ensureDir_eq_false hu
      have hagain := createDirs_of_isDir (fun hne => isDir_of_createDirs hne hs) rest
      exact ⟨hnot, createDirs_succ_eq_false hpath hparent hu hagain⟩

/-! ## What was made -/

/-- There is nothing in a directory that was made where nothing stood. -/
theorem IsTree.empty_of_set (ht : t.IsTree) {p : List String}
    (hp : t.resolve false path = .vacant p) (name : String) :
    entry? (t.set p .dir) (p ++ [name]) = none := by
  have hnone := entry?_of_vacant hp
  rw [entry?_set (ht.vacant hp).1, if_neg (by simp)]
  cases he : t.entry? (p ++ [name]) with
  | none => rfl
  | some e =>
    have hparent := ht.parents _ _ he
    rw [List.dropLast_concat, hnone] at hparent
    cases hparent

theorem walkWith_ups {follow : Bool} {jump : List String → List String → Target}
    {names : List String} (h : ∀ x ∈ names, x = "." ∨ x = "..") (here : List String) :
    ∃ p, t.walkWith follow jump here names = .found p := by
  induction names generalizing here with
  | nil => exact ⟨here, rfl⟩
  | cons name rest ih =>
    have hrest := ih fun x hx => h x (List.mem_cons_of_mem _ hx)
    rw [walkWith_cons]
    rcases h name List.mem_cons_self with rfl | rfl
    · rw [turn_here]
      exact hrest here
    · rw [turn_up]
      exact hrest here.dropLast

theorem walk_ups {names : List String} (h : ∀ x ∈ names, x = "." ∨ x = "..") (t : FileTree)
    (follow : Bool) (links : Nat) (here : List String) :
    ∃ p, t.walk follow links here names = .found p := by
  cases links <;> exact walkWith_ups h here

/-- Ways up lead to something. -/
theorem not_vacant_of_ups (hups : ∀ x ∈ undotted (names path), x = "..") (p : List String) :
    t.resolve false path ≠ .vacant p := by
  intro hp
  have hall : ∀ x ∈ names path ++ (if endsInSlash path then ["."] else []), x = "." ∨ x = ".." := by
    intro x hx
    by_cases hdot : x = "."
    · exact Or.inl hdot
    rcases List.mem_append.1 hx with hx | hx
    · exact Or.inr (hups x (List.mem_filter.2 ⟨hx, by simpa using hdot⟩))
    · split at hx
      · exact absurd (List.mem_singleton.1 hx) hdot
      · exact absurd hx List.not_mem_nil
  unfold resolve at hp
  split at hp
  · cases hp
  · obtain ⟨q, hq⟩ := walk_ups hall t false linkLimit (if isAbsolute path then [] else t.workDir)
    rw [hq] at hp
    cases hp

/-- **Along a path that goes up at its beginning alone**, a directory was there, or it is the last
thing that was made. -/
theorem exists_vacant_of_createDirs (ht : t.IsTree) (hpath : path ≠ "") (hup : GoesUpFirst path)
    {depth : Nat} (h : t.createDirs depth path = (u, true)) :
    u = t ∧ t.isDir path = true ∨
      ∃ (s : FileTree) (p : List String), s.IsTree ∧ s.resolve false path = .vacant p ∧
        u = s.set p .dir := by
  induction depth using Nat.strongRecOn generalizing path u with
  | ind depth ih =>
    rcases createDirs_cases hpath h with
      hu | ⟨rest, parent, rfl, hparent?, hnot, ⟨-, hno⟩ | ⟨s, hs, hu⟩⟩
    · exact (ensureDir_eq_true hu).imp_right fun ⟨p, hp, he⟩ => ⟨t, p, ht, hp, he⟩
    · cases hno
    · have hsTree := ht.createDirs hs
      rcases ensureDir_eq_true hu with ⟨rfl, hdir⟩ | ⟨p, hp, he⟩
      swap
      · exact Or.inr ⟨s, p, hsTree, hp, he⟩
      have hparent := isParent_of_parent? hparent?
      have hother : u ≠ t := by
        rintro rfl
        rw [hnot] at hu
        cases hu
      by_cases hne : parent = ""
      · rw [hne, createDirs_empty] at hs
        exact absurd (congrArg Prod.fst hs).symm hother
      obtain ⟨last, hlast, hpart, hdot, hnames⟩ := exists_last_of_isParent hparent hne
      -- The parent was made just now: no directory is found in it.
      rcases ih rest rest.lt_succ_self hne (goesUpFirst_of_isParent hparent hne hup) hs with
        ⟨hsame, -⟩ | ⟨v, q, hv, hq, rfl⟩
      · exact absurd hsame hother
      have hlastUp : last ≠ ".." := by
        rintro rfl
        exact not_vacant_of_ups (hup.eq_up hnames) q hq
      have hempty := not_isDir_of_empty hparent hne hlast ⟨hpart.1, hpart.2, hdot, hlastUp⟩
        (resolve_set_dir hq true) (entry?_set_vacant hq .dir) (hv.empty_of_set hq)
      rw [hdir] at hempty
      cases hempty

/-! ## What was taken away -/

theorem isPartOf_erase {p : List String} (hp : p ≠ []) : (t.erase p).IsPartOf t := by
  refine ⟨rfl, fun {q e} he => ?_⟩
  rw [entry?_erase hp] at he
  split at he
  · cases he
  · exact he

/-- A walk to something that was taken away finds nothing. -/
theorem IsPartOf.walkWith_ne_found (h : u.IsPartOf t) {p q : List String} (hp : u.entry? p = none)
    (hq : u.entry? q ≠ none) {follow : Bool} {jump jump' : List String → List String → Target}
    (hjump : ∀ here names, (jump here names).place? = some p → jump' here names ≠ .found q)
    {here names : List String} (hw : (t.walkWith false jump here names).place? = some p) :
    u.walkWith follow jump' here names ≠ .found q := by
  induction names generalizing here with
  | nil =>
    cases hw
    intro hfound
    cases hfound
    exact hq hp
  | cons name rest ih =>
    rw [walkWith_cons] at hw ⊢
    rcases turn_eq_or_missing h.entry?_eq here name with ⟨hsame, hmet⟩ | ⟨r, hmissing⟩
    · -- Something is left where the walk comes by, so it does not end there.
      have hgone : ∀ {e}, u.entry? p ≠ some e := fun he => by
        rw [hp] at he
        cases he
      rw [hsame] at hw
      cases hturn : u.turn here name with
      | into r => rw [hturn] at hw; exact ih hw
      | missing r => exact absurd hturn (hmet r)
      | file r =>
        obtain ⟨rfl, text, he⟩ := turn_file hturn
        rw [hturn] at hw
        dsimp only at hw
        split at hw
        · cases hw
          exact absurd he hgone
        · cases hw
      | link r target =>
        obtain ⟨rfl, he⟩ := turn_link hturn
        rw [hturn] at hw
        dsimp only at hw ⊢
        by_cases hstop : (rest.isEmpty && !false) = true
        · rw [if_pos hstop] at hw
          cases hw
          exact absurd he hgone
        · have hlast : rest.isEmpty = false := by simpa using hstop
          rw [if_neg hstop] at hw
          rw [hlast, Bool.false_and]
          exact hjump _ _ hw
      | nowhere => exact fun hfound => by cases hfound
    · -- What is gone was on the way, so the walk finds nothing at all.
      rw [hmissing]
      dsimp only
      split <;> exact fun hfound => by cases hfound

/-- **Nothing is there once it was taken away.** -/
theorem hasEntry_erase {p : List String} (h : t.resolve false path = .found p) (hp : p ≠ []) :
    (t.erase p).hasEntry path = false := by
  have hpart : (t.erase p).IsPartOf t := isPartOf_erase hp
  have hgone : entry? (t.erase p) p = none := by
    rw [entry?_erase hp, if_pos List.prefix_rfl]
  have hwalk : ∀ q, entry? (t.erase p) q ≠ none → ∀ links here names,
      (t.walk false links here names).place? = some p →
        (t.erase p).walk true links here names ≠ .found q := by
    intro q hq links
    induction links with
    | zero => exact fun here names => hpart.walkWith_ne_found hgone hq fun _ _ h => by cases h
    | succ links ih => exact fun here names => hpart.walkWith_ne_found hgone hq ih
  unfold hasEntry lookup
  cases hq : (t.erase p).resolve true path with
  | vacant q => rfl
  | nowhere => rfl
  | found q =>
    by_contra hthere
    have hne : entry? (t.erase p) q ≠ none := by simpa [Option.isSome_iff_ne_none] using hthere
    unfold resolve at h hq
    split at h
    · cases h
    · next hclean =>
      rw [if_neg hclean] at hq
      exact hwalk q hne _ _ _ (congrArg Target.place? h) hq

/-! ## Steady paths -/

/-- **A path that making its directories does not lead elsewhere**: it goes up at its beginning
alone, or its parent is there. -/
def IsSteady (t : FileTree) (path : String) : Prop :=
  GoesUpFirst path ∨ ∀ parent, parent? path = some parent → parent ≠ "" → t.isDir parent = true

/-- The directories on the way of a steady path are there, or the last one was made just now. -/
theorem IsSteady.createDirs_parent (ht : t.IsTree) (h : t.IsSteady path)
    (hparent : parent? path = some parent) {depth : Nat}
    (hu : t.createDirs depth parent = (u, true)) :
    u = t ∨ parent ≠ "" ∧
      ∃ (s : FileTree) (p : List String), s.IsTree ∧ s.resolve false parent = .vacant p ∧
        u = s.set p .dir := by
  rcases h with hup | hthere
  · by_cases hne : parent = ""
    · rw [hne, createDirs_empty] at hu
      exact Or.inl (congrArg Prod.fst hu).symm
    have hparentUp := goesUpFirst_of_isParent (isParent_of_parent? hparent) hne hup
    exact (exists_vacant_of_createDirs ht hne hparentUp hu).imp (fun h => h.1) fun h => ⟨hne, h⟩
  · rw [createDirs_of_isDir (hthere parent hparent)] at hu
    exact Or.inl (congrArg Prod.fst hu).symm

/-- Where nothing was, a steady path's directory is the last thing that was made. -/
theorem IsSteady.exists_vacant (ht : t.IsTree) (h : t.IsSteady path) (hpath : path ≠ "")
    (hno : t.hasEntry path = false) {depth : Nat} (hu : t.createDirs depth path = (u, true)) :
    ∃ (s : FileTree) (p : List String), s.IsTree ∧ s.resolve false path = .vacant p ∧
      u = s.set p .dir := by
  have hnot : t.isDir path ≠ true := by
    intro hdir
    rw [hasEntry_of_isDir hdir] at hno
    cases hno
  rcases h with hup | hthere
  · exact (exists_vacant_of_createDirs ht hpath hup hu).resolve_left fun hdir => hnot hdir.2
  rcases createDirs_cases hpath hu with
    hu | ⟨rest, parent, -, hparent, hsame, ⟨-, hf⟩ | ⟨s, hs, hu⟩⟩
  · rcases ensureDir_eq_true hu with ⟨-, hdir⟩ | ⟨p, hp, he⟩
    · exact absurd hdir hnot
    · exact ⟨t, p, ht, hp, he⟩
  · cases hf
  · rw [createDirs_of_isDir (hthere parent hparent)] at hs
    cases hs
    rw [hsame] at hu
    cases hu

/-- **Where a steady path's directory cannot be made**, there is still nothing. -/
theorem IsSteady.hasEntry_eq_false (ht : t.IsTree) (h : t.IsSteady path) {last : String}
    (hend : (names path).getLast? = some last) (hname : IsEntryName last)
    (hslash : endsInSlash path = false) (hno : t.hasEntry path = false) {depth : Nat}
    (hu : t.createDirs depth path = (u, false)) : u.hasEntry path = false := by
  have hpath : path ≠ "" := by
    rintro rfl
    cases hend
  rcases createDirs_cases hpath hu with hu | ⟨rest, parent, -, hparent?, -, ⟨hs, -⟩ | ⟨s, hs, hu⟩⟩
  · rw [(ensureDir_eq_false hu).1]
    exact hno
  · obtain ⟨hnot, -⟩ := createDirs_again ht hs
    unfold hasEntry lookup
    rw [(ht.createDirs hs).nowhere hparent? (ne_empty_of_createDirs hs) hnot true]
    rfl
  · rw [← (ensureDir_eq_false hu).1] at hs
    rcases h.createDirs_parent ht hparent? hs with rfl | ⟨hne, v, p, hv, hp, rfl⟩
    · exact hno
    have hparent := isParent_of_parent? hparent?
    exact not_hasEntry_of_empty hparent hne (steps_getLast? hend hname.ne_here) hname
      (resolve_set_dir hp true) (entry?_set_vacant hp .dir) (hv.empty_of_set hp) hslash hend

/-- The path of a name in a directory is steady if the directory's path goes up at its beginning
alone, or the directory is there. -/
theorem isSteady_join {dir name : String} (hname : IsEntryName name) (hnull : '\x00' ∉ name.toList)
    (hdir : dir ≠ "") (h : GoesUpFirst dir ∨ t.isDir dir = true) :
    t.IsSteady (join dir name) := by
  rcases h with hup | hthere
  · exact Or.inl (goesUpFirst_join hdir hname hup)
  refine Or.inr fun parent hparent hne => ?_
  have hparent := isParent_of_parent? hparent
  obtain ⟨b, hb, he⟩ := isDir_iff.1 hthere
  have hclean := clean_of_found hb
  have hcleanJoin := clean_join hdir hname hnull hclean
  obtain ⟨last, -, -, hdot, hnames⟩ := exists_last_of_isParent hparent hne
  have hsame : undotted (names dir ++ if endsInSlash dir then ["."] else []) =
      undotted (names parent) := by
    have hone : undotted [name] = [name] := List.filter_cons_of_pos (by simpa using hname.ne_here)
    rw [names_join hdir hname, undotted_append, hone] at hnames
    rw [undotted_append, List.append_inj_left' hnames rfl]
    split <;> exact List.append_nil _
  unfold resolve at hb
  rw [if_neg hclean] at hb
  refine isDir_iff.2 ⟨b, (resolve_parent_iff hparent hne hcleanJoin he).2 ?_, he⟩
  rw [isAbsolute_join hdir hname]
  exact walk_congr he hsame hb

end FileTree

end TypedBindings
