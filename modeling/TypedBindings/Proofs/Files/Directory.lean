import TypedBindings.Proofs.Files.Places

/-!
# The places of files in a directory

* `Path.names_join`: the names of a file's path are those of its directory and its own.
* `FileTree.place?_join`: the path of a file leads to the file's name in the place of the directory,
  unless a link stands there.
* `FileTree.place_of_resolve_join`: if links are not followed, it leads there in any case.
-/

namespace TypedBindings

/-! ## Paths -/

/-- A name that an entry of a directory can have. -/
structure IsEntryName (name : String) : Prop where
  ne_empty : name ≠ ""
  no_slash : '/' ∉ name.toList
  ne_here : name ≠ "."
  ne_up : name ≠ ".."

/-- A path that can be followed by a slash and a name. -/
structure IsDirPath (dir : String) : Prop where
  ne_empty : dir ≠ ""
  no_slash : Path.endsInSlash dir = false

namespace Path

variable {dir name : String}

theorem isAbsolute_eq_false (h : '/' ∉ name.toList) : isAbsolute name = false := by
  unfold isAbsolute
  cases hc : name.toList with
  | nil => rfl
  | cons c rest =>
    have hne : c ≠ '/' := fun e => h (by rw [hc, e]; exact List.mem_cons_self)
    simpa using hne

/-- A path that is joined to a directory has one slash in front of it. -/
theorem join_eq (hdir : dir ≠ "") (hname : IsEntryName name) :
    ∃ front, (dir.toList = front ∨ dir.toList = front ++ ['/']) ∧
      (join dir name).toList = front ++ '/' :: name.toList := by
  have hempty : dir.isEmpty = false := by simpa using hdir
  unfold join
  rw [isAbsolute_eq_false hname.no_slash, hempty]
  by_cases hslash : endsInSlash dir = true
  · obtain ⟨front, hfront⟩ : ∃ front, dir.toList = front ++ ['/'] :=
      List.getLast?_eq_some_iff.1 (by simpa [endsInSlash] using hslash)
    refine ⟨front, Or.inr hfront, ?_⟩
    simp [hslash, hfront]
  · refine ⟨dir.toList, Or.inl rfl, ?_⟩
    simp [hslash]

/-- A name without slashes is the one word of its text. -/
theorem words_name (hne : name ≠ "") (hslash : '/' ∉ name.toList) :
    Text.words (· == '/') name.toList = [name.toList] := by
  refine Text.words_of_no_break (by simpa using hne) fun c hc => ?_
  have hother : c ≠ '/' := fun e => hslash (e ▸ hc)
  simpa using hother

theorem names_join (hdir : dir ≠ "") (hname : IsEntryName name) :
    names (join dir name) = names dir ++ [name] := by
  have hlast := words_name hname.ne_empty hname.no_slash
  obtain ⟨front, hfront, hjoin⟩ := join_eq hdir hname
  have hwords : Text.words (· == '/') dir.toList = Text.words (· == '/') front := by
    rcases hfront with hfront | hfront
    · rw [hfront]
    · rw [hfront, Text.words_append (by rfl)]
      exact List.append_nil _
  unfold names
  rw [hwords, hjoin, Text.words_append (by rfl), hlast, List.map_append]
  simp

theorem isAbsolute_join (hdir : dir ≠ "") (hname : IsEntryName name) :
    isAbsolute (join dir name) = isAbsolute dir := by
  have hchars : dir.toList ≠ [] := by simpa using hdir
  obtain ⟨front, hfront, hjoin⟩ := join_eq hdir hname
  unfold isAbsolute
  rw [hjoin]
  cases front with
  | nil =>
    rcases hfront with hfront | hfront
    · exact absurd hfront hchars
    · rw [hfront]; rfl
  | cons c rest => rcases hfront with hfront | hfront <;> rw [hfront] <;> rfl

theorem endsInSlash_join (hdir : dir ≠ "") (hname : IsEntryName name) :
    endsInSlash (join dir name) = false := by
  have hne : name.toList ≠ [] := by simpa using hname.ne_empty
  have hlast : name.toList.getLast hne ≠ '/' := fun e => hname.no_slash (e ▸ List.getLast_mem hne)
  obtain ⟨front, -, hjoin⟩ := join_eq hdir hname
  unfold endsInSlash
  rw [hjoin, List.getLast?_append, List.getLast?_cons, List.getLast?_eq_some_getLast hne]
  simpa using hlast

/-- A path that begins with one that leads nowhere leads nowhere. -/
theorem contains_join (hdir : dir ≠ "") (hname : IsEntryName name)
    (h : dir.toList.contains '\x00' = true) : (join dir name).toList.contains '\x00' = true := by
  obtain ⟨front, hfront, hjoin⟩ := join_eq hdir hname
  have hmem : '\x00' ∈ dir.toList := by simpa using h
  have hfront : '\x00' ∈ front := by
    rcases hfront with hfront | hfront
    · exact hfront ▸ hmem
    · rw [hfront] at hmem
      simpa using hmem
  rw [hjoin]
  simpa using Or.inl hfront

end Path

/-! ## Walks -/

namespace FileTree

variable {t : FileTree} {dir name : String}

theorem eq_of_turn_into (hname : IsEntryName name) {here place : List String}
    (h : t.turn here name = .into place) : place = here ++ [name] := by
  rcases turn_into h with ⟨hhere, -⟩ | ⟨hup, -⟩ | ⟨hplace, -⟩
  · exact absurd hhere hname.ne_here
  · exact absurd hup hname.ne_up
  · exact hplace

/-- One walk leads to a directory, and another one to a name in it. -/
def LeadsInto (t : FileTree) (name : String) (outer inner : Target) : Prop :=
  ∃ base, outer = .found base ∧
    ((∀ target, t.entry? (base ++ [name]) ≠ some (.link target)) →
      inner.place? = some (base ++ [name]))

/-- A walk that goes one name further passes through where it would have ended without it. -/
theorem leadsInto_walkWith (hname : IsEntryName name) {jump : List String → List String → Target}
    (hjump : ∀ here names, jump here (names ++ [name]) ≠ .nowhere →
      t.LeadsInto name (jump here names) (jump here (names ++ [name])))
    {here names : List String} (h : t.walkWith true jump here (names ++ [name]) ≠ .nowhere) :
    t.LeadsInto name (t.walkWith true jump here names)
      (t.walkWith true jump here (names ++ [name])) := by
  induction names generalizing here with
  | nil =>
    refine ⟨here, rfl, fun hlink => ?_⟩
    rw [List.nil_append, walkWith_cons] at h ⊢
    cases hturn : t.turn here name with
    | into p => rw [eq_of_turn_into hname hturn]; rfl
    | missing p => rw [(turn_missing hturn).1]; rfl
    | file p => rw [(turn_file hturn).1]; rfl
    | link p target =>
      obtain ⟨rfl, he⟩ := turn_link hturn
      exact absurd he (hlink target)
    | nowhere => rw [hturn] at h; exact absurd rfl h
  | cons x rest ih =>
    have hmore : (rest ++ [name]).isEmpty = false := by simp
    rw [List.cons_append, walkWith_cons] at h ⊢
    rw [walkWith_cons]
    -- With a name to come, only a directory or a link leads on.
    cases hturn : t.turn here x with
    | into p => rw [hturn] at h; exact ih h
    | missing p => rw [hturn] at h; simp only [hmore] at h; exact absurd rfl h
    | file p => rw [hturn] at h; simp only [hmore] at h; exact absurd rfl h
    | link p target =>
      rw [hturn] at h
      simp only [hmore, Bool.not_true, Bool.and_false] at h ⊢
      rw [← List.append_assoc] at h ⊢
      exact hjump _ _ h
    | nowhere => rw [hturn] at h; exact absurd rfl h

theorem leadsInto_walk (hname : IsEntryName name) (links : Nat) {here names : List String}
    (h : t.walk true links here (names ++ [name]) ≠ .nowhere) :
    t.LeadsInto name (t.walk true links here names) (t.walk true links here (names ++ [name])) := by
  induction links generalizing here names with
  | zero => exact leadsInto_walkWith hname (fun _ _ h => absurd rfl h) h
  | succ links ih => exact leadsInto_walkWith hname (fun _ _ h => ih h) h

/-- The walk along the path of a file is the walk along its directory's path, one name longer. -/
theorem resolve_join (hdir : IsDirPath dir) (hname : IsEntryName name)
    (h : t.resolve true (Path.join dir name) ≠ .nowhere) :
    ∃ start, t.resolve true dir = t.walk true linkLimit start (Path.names dir) ∧
      t.resolve true (Path.join dir name) =
        t.walk true linkLimit start (Path.names dir ++ [name]) := by
  have hclean : ¬ ((Path.join dir name).isEmpty ||
      (Path.join dir name).toList.contains '\x00') = true := by
    intro hbad
    unfold resolve at h
    exact h (if_pos hbad)
  have hcleanDir : ¬ (dir.isEmpty || dir.toList.contains '\x00') = true := by
    have hempty : dir.isEmpty = false := by simpa using hdir.ne_empty
    intro hbad
    rw [hempty, Bool.false_or] at hbad
    exact hclean (by rw [Path.contains_join hdir.ne_empty hname hbad, Bool.or_true])
  refine ⟨if Path.isAbsolute dir then [] else t.workDir, ?_, ?_⟩
  · unfold resolve
    rw [if_neg hcleanDir, hdir.no_slash]
    simp
  · unfold resolve
    rw [if_neg hclean, Path.names_join hdir.ne_empty hname,
      Path.isAbsolute_join hdir.ne_empty hname, Path.endsInSlash_join hdir.ne_empty hname]
    simp

/-- **The path of a file leads into its directory**: to its name in the place of the directory,
unless a link stands there. -/
theorem place?_join (hdir : IsDirPath dir) (hname : IsEntryName name) {place : List String}
    (h : t.place? (Path.join dir name) = some place) :
    ∃ base, t.resolve true dir = .found base ∧
      ((∀ target, t.entry? (base ++ [name]) ≠ some (.link target)) → place = base ++ [name]) := by
  have hthere : t.resolve true (Path.join dir name) ≠ .nowhere := by
    intro hn
    unfold place? at h
    rw [hn] at h; cases h
  obtain ⟨start, hdirWalk, hwalk⟩ := resolve_join hdir hname hthere
  rw [hwalk] at hthere
  obtain ⟨base, hbase, hplace⟩ := leadsInto_walk hname linkLimit hthere
  refine ⟨base, hdirWalk.trans hbase, fun hlink => ?_⟩
  unfold place? at h
  rw [hwalk, hplace hlink] at h
  exact (Option.some.inj h).symm

/-! ## Names that are not followed -/

theorem walkWith_dots {dots : List String} (hdots : ∀ d ∈ dots, d = ".") {follow : Bool}
    {jump : List String → List String → Target} (here : List String) :
    t.walkWith follow jump here dots = .found here := by
  induction dots with
  | nil => rfl
  | cons d rest ih =>
    rw [walkWith_cons, hdots d List.mem_cons_self, turn_here]
    exact ih fun d hd => hdots d (List.mem_cons_of_mem _ hd)

/-- A walk that ends with a name that is not followed ends in the directory at which the walk
without the name ends; dots behind that walk lead nowhere else. -/
theorem place?_walkWith_last (hname : IsEntryName name) {dots : List String}
    (hdots : ∀ d ∈ dots, d = ".") {jump jump' : List String → List String → Target}
    (hjump : ∀ here names p, (jump' here (names ++ [name])).place? = some p →
      ∃ base, jump here (names ++ dots) = .found base ∧ p = base ++ [name])
    {here names p : List String}
    (h : (t.walkWith false jump' here (names ++ [name])).place? = some p) :
    ∃ base, t.walkWith true jump here (names ++ dots) = .found base ∧ p = base ++ [name] := by
  induction names generalizing here with
  | nil =>
    -- Only the entry's own name is left, whatever stands under it.
    refine ⟨here, walkWith_dots hdots here, ?_⟩
    rw [List.nil_append, walkWith_cons] at h
    cases hturn : t.turn here name with
    | into p => rw [hturn] at h; cases h; exact eq_of_turn_into hname hturn
    | missing p => rw [hturn] at h; cases h; exact (turn_missing hturn).1
    | file p => rw [hturn] at h; cases h; exact (turn_file hturn).1
    | link p target => rw [hturn] at h; cases h; exact (turn_link hturn).1
    | nowhere => rw [hturn] at h; cases h
  | cons x rest ih =>
    have hmore : (rest ++ [name]).isEmpty = false := by simp
    rw [List.cons_append, walkWith_cons] at h ⊢
    cases hturn : t.turn here x with
    | into p => rw [hturn] at h; exact ih h
    | missing p => rw [hturn, hmore] at h; cases h
    | file p => rw [hturn, hmore] at h; cases h
    | link p target =>
      rw [hturn, hmore] at h
      dsimp only at h ⊢
      rw [Bool.not_true, Bool.and_false]
      rw [← List.append_assoc] at h ⊢
      exact hjump _ _ _ h
    | nowhere => rw [hturn] at h; cases h

theorem place_of_walk_last (hname : IsEntryName name) {dots : List String}
    (hdots : ∀ d ∈ dots, d = ".") (links : Nat) {here names p : List String}
    (h : (t.walk false links here (names ++ [name])).place? = some p) :
    ∃ base, t.walk true links here (names ++ dots) = .found base ∧ p = base ++ [name] := by
  induction links generalizing here names p with
  | zero => exact place?_walkWith_last hname hdots (fun _ _ _ h => by cases h) h
  | succ links ih => exact place?_walkWith_last hname hdots (fun _ _ _ h => ih h) h

/-- **A name that is not followed is in the place of its directory.** -/
theorem place_of_resolve_join (hdir : dir ≠ "") (hname : IsEntryName name) {p : List String}
    (h : (t.resolve false (Path.join dir name)).place? = some p) :
    ∃ base, t.resolve true dir = .found base ∧ p = base ++ [name] := by
  have hempty : dir.isEmpty = false := by simpa using hdir
  unfold resolve at h ⊢
  rw [Path.names_join hdir hname, Path.isAbsolute_join hdir hname, Path.endsInSlash_join hdir hname]
    at h
  split at h
  · cases h
  next hclean =>
  have hcleanDir : ¬ (dir.isEmpty || dir.toList.contains '\x00') = true := by
    rw [hempty, Bool.false_or]
    exact fun hbad => hclean (by rw [Path.contains_join hdir hname hbad, Bool.or_true])
  rw [if_neg hcleanDir]
  refine place_of_walk_last hname ?_ linkLimit (by simpa using h)
  intro d hd
  split at hd
  · exact List.mem_singleton.1 hd
  · exact absurd hd List.not_mem_nil

end FileTree

end TypedBindings
