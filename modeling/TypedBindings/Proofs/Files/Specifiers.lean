import TypedBindings.Proofs.Files.Parents

/-!
# Specifiers of imports

The way from a directory to a file climbs out of what the two do not share and goes down to the
file. An import takes a specifier for a path only if it begins with `./` or `../`.

* `Path.follow`: where a way leads, name by name.
* `Path.follow_relative`: the way to a file leads to it.
* `Path.specifier_leads_to_file`: so does its specifier, and when it begins as it has to.
-/

namespace TypedBindings.Path

/-- Where a way leads from a place, name by name: `.` stays there and `..` goes to the parent. -/
def follow : List String → List String → List String
  | here, [] => here
  | here, name :: rest =>
    if name = "." then follow here rest
    else if name = ".." then follow here.dropLast rest
    else follow (here ++ [name]) rest

/-- A specifier that imports take for a path. -/
def IsRelative (specifier : String) : Prop :=
  ['.', '/'] <+: specifier.toList ∨ ['.', '.', '/'] <+: specifier.toList

instance (specifier : String) : Decidable (IsRelative specifier) :=
  inferInstanceAs (Decidable (_ ∨ _))

variable {dir file : List String}

/-! ## Following a way -/

theorem follow_names {names : List String} (h : ∀ n ∈ names, IsEntryName n)
    (here : List String) : follow here names = here ++ names := by
  induction names generalizing here with
  | nil => rw [follow, List.append_nil]
  | cons n rest ih =>
    have hn := h n List.mem_cons_self
    rw [follow, if_neg hn.ne_here, if_neg hn.ne_up, ih fun x hx => h x (List.mem_cons_of_mem _ hx),
      List.append_assoc]
    rfl

/-- As many steps up as there are names lead back over these names. -/
theorem follow_ups (shared up way : List String) :
    follow (shared ++ up) (up.map (fun _ => "..") ++ way) = follow shared way := by
  induction up using List.reverseRecOn with
  | nil => rw [List.append_nil]; rfl
  | append_singleton init last ih =>
    have hups : (init ++ [last]).map (fun _ => "..") = ".." :: init.map fun _ => ".." := by
      simp [← List.replicate_succ', List.map_const', List.replicate_succ]
    rw [hups, List.cons_append, follow, if_neg (by decide), if_pos rfl, ← List.append_assoc,
      List.dropLast_concat, ih]

/-- What two places share, and what each of them has behind that. -/
theorem exists_shared (dir file : List String) :
    ∃ shared up down, withoutShared dir file = (up, down) ∧ dir = shared ++ up ∧
      file = shared ++ down := by
  induction dir generalizing file with
  | nil => exact ⟨[], [], file, by cases file <;> rfl, rfl, rfl⟩
  | cons x xs ih =>
    cases file with
    | nil => exact ⟨[], x :: xs, [], rfl, rfl, rfl⟩
    | cons y ys =>
      rw [withoutShared]
      by_cases hxy : x = y
      · obtain ⟨shared, up, down, hrest, hdir, hfile⟩ := ih ys
        exact ⟨x :: shared, up, down, by rw [if_pos hxy, hrest], congrArg (x :: ·) hdir,
          hxy ▸ congrArg (x :: ·) hfile⟩
      · exact ⟨[], x :: xs, y :: ys, if_neg hxy, rfl, rfl⟩

theorem withoutShared_append (dir rest : List String) :
    withoutShared dir (dir ++ rest) = ([], rest) := by
  induction dir with
  | nil => cases rest <;> rfl
  | cons x xs ih => rw [List.cons_append, withoutShared, if_pos rfl, ih]

/-- **The way to a file leads to it.** -/
theorem follow_relative (dir : List String) (hfile : ∀ n ∈ file, IsEntryName n) :
    follow dir (relative dir file) = file := by
  obtain ⟨shared, up, down, hrest, rfl, rfl⟩ := exists_shared dir file
  have hdown : ∀ n ∈ down, IsEntryName n := fun n hn => hfile n (List.mem_append_right _ hn)
  unfold relative
  rw [hrest]
  exact (follow_ups shared up down).trans (follow_names hdown shared)

/-! ## Specifiers -/

/-- A specifier is the way as a path, with a dot in front of it unless it begins with two. -/
theorem names_specifier {way : List String} (h : ∀ n ∈ way, IsPart n) :
    names (specifier way) = way ∨ names (specifier way) = "." :: way := by
  unfold specifier
  dsimp only
  split
  · exact Or.inl (names_intercalate h)
  · have hchars : ("./" ++ "/".intercalate way).toList =
        ['.'] ++ '/' :: ("/".intercalate way).toList := by
      rw [String.toList_append]; rfl
    have hdot : Text.words (· == '/') ['.'] = [['.']] := rfl
    refine Or.inr ?_
    unfold names
    rw [hchars, Text.words_append (by rfl), hdot, words_intercalate h]
    simp

/-- The dot in front of a specifier leads nowhere else. -/
theorem follow_specifier {way : List String} (h : ∀ n ∈ way, IsPart n) (here : List String) :
    follow here (names (specifier way)) = follow here way := by
  rcases names_specifier h with hnames | hnames
  · rw [hnames]
  · rw [hnames, follow, if_pos rfl]

theorem isPart_of_mem_relative (hfile : ∀ n ∈ file, IsEntryName n) :
    ∀ n ∈ relative dir file, IsPart n := by
  obtain ⟨shared, up, down, hrest, rfl, rfl⟩ := exists_shared dir file
  unfold relative
  rw [hrest]
  intro n hn
  rcases List.mem_append.1 hn with hn | hn
  · obtain ⟨_, -, rfl⟩ := List.mem_map.1 hn
    exact ⟨by decide, by decide⟩
  · have hentry := hfile n (List.mem_append_right _ hn)
    exact ⟨hentry.ne_empty, hentry.no_slash⟩

/-- A way that goes up and then somewhere needs no dot. -/
theorem isRelative_specifier_up (n : String) (rest : List String) :
    IsRelative (specifier (".." :: n :: rest)) := by
  have hchars := toList_intercalate_cons ".." n rest
  have hdots : ['.', '.', '/'] <+: ("/".intercalate (".." :: n :: rest)).toList :=
    ⟨("/".intercalate (n :: rest)).toList, by rw [hchars]; rfl⟩
  have hup : ['.', '.'].isPrefixOf ("/".intercalate (".." :: n :: rest)).toList = true := by
    rw [hchars]; rfl
  unfold specifier
  dsimp only
  rw [if_pos hup]
  exact Or.inr hdots

/-- A way that goes down at once has a specifier that imports take for a path, unless its first
name begins with two dots: then the dot in front is left out. -/
theorem isRelative_specifier_down {n : String} (hn : IsEntryName n) (rest : List String) :
    IsRelative (specifier (n :: rest)) ↔ ¬ ['.', '.'] <+: n.toList := by
  obtain ⟨more, hchars⟩ := exists_intercalate_cons n rest
  have hne : ∀ s : String, n ≠ s → n.toList ≠ s.toList := fun s h he => h (String.toList_inj.1 he)
  have hempty := hne "" hn.ne_empty
  have hhere := hne "." hn.ne_here
  have hup := hne ".." hn.ne_up
  have hslash := hn.no_slash
  by_cases hdots : ['.', '.'] <+: n.toList
  · -- a third character follows the dots, and it is no slash
    obtain ⟨tail, htail⟩ := hdots
    rw [← htail] at hup hslash hchars
    have hbegins : ['.', '.'].isPrefixOf ("/".intercalate (n :: rest)).toList = true := by
      rw [hchars]; rfl
    refine iff_of_false ?_ (fun h => h ⟨tail, htail⟩)
    unfold specifier IsRelative
    dsimp only
    rw [if_pos hbegins, hchars]
    cases tail with
    | nil => exact absurd rfl hup
    | cons c cs =>
      have hc : '/' ≠ c := fun he => hslash (List.mem_append_right _ (he ▸ List.mem_cons_self))
      rintro (h | h)
      · simp at h
      · simp [hc] at h
  · -- the path does not begin with two dots, so `./` is put in front
    have hbegins : ['.', '.'].isPrefixOf ("/".intercalate (n :: rest)).toList = false := by
      rw [hchars]
      cases hcs : n.toList with
      | nil => exact absurd hcs hempty
      | cons c cs =>
        rw [hcs] at hhere hdots
        cases cs with
        | nil =>
          have hc : '.' ≠ c := fun he => hhere (by rw [← he]; rfl)
          simp [List.isPrefixOf, hc]
        | cons d ds => simpa [List.isPrefixOf] using hdots
    refine iff_of_true ?_ hdots
    unfold specifier IsRelative
    dsimp only
    rw [hbegins, if_neg Bool.false_ne_true, String.toList_append]
    exact Or.inl (List.prefix_append _ _)

/-- **A specifier leads to the file**, and imports take it for a path unless the file is below the
directory and the first name on the way to it begins with two dots. -/
theorem specifier_leads_to_file (hfile : ∀ n ∈ file, IsEntryName n) (hout : ¬ file <+: dir) :
    follow dir (names (specifier (relative dir file))) = file ∧
      (IsRelative (specifier (relative dir file)) ↔
        ¬ ∃ n rest, file = dir ++ n :: rest ∧ ['.', '.'] <+: n.toList) := by
  refine ⟨?_, ?_⟩
  · rw [follow_specifier (isPart_of_mem_relative hfile), follow_relative dir hfile]
  obtain ⟨shared, up, down, hrest, rfl, rfl⟩ := exists_shared dir file
  have hway : relative (shared ++ up) (shared ++ down) = up.map (fun _ => "..") ++ down := by
    unfold relative
    rw [hrest]
  rw [hway]
  cases down with
  | nil => exact absurd (by rw [List.append_nil]; exact List.prefix_append _ _) hout
  | cons n rest =>
    cases up with
    | nil =>
      have hn := hfile n (List.mem_append_right _ List.mem_cons_self)
      rw [List.map_nil, List.nil_append, isRelative_specifier_down hn, List.append_nil]
      refine not_congr ⟨fun h => ⟨n, rest, rfl, h⟩, ?_⟩
      rintro ⟨m, more, hsame, hm⟩
      cases List.append_cancel_left hsame
      exact hm
    | cons x xs =>
      refine iff_of_true ?_ ?_
      · cases xs with
        | nil => exact isRelative_specifier_up n rest
        | cons y ys => exact isRelative_specifier_up ".." _
      · -- a file below the directory is reached without going up
        rintro ⟨m, more, hsame, -⟩
        rw [hsame, withoutShared_append] at hrest
        cases hrest

/-- The output directory and a manifest in the project. -/
theorem specifier_leads_to_file_manifest :
    (∀ n ∈ ["project", ".deployments.testnet.json"], IsEntryName n) ∧
      ¬ ["project", ".deployments.testnet.json"] <+: ["project", "artifacts", "ts"] ∧
      follow ["project", "artifacts", "ts"]
        (names (specifier (relative ["project", "artifacts", "ts"]
          ["project", ".deployments.testnet.json"]))) = ["project", ".deployments.testnet.json"] := by
  have hnames : ∀ n ∈ ["project", ".deployments.testnet.json"], IsEntryName n := by
    intro n hn
    simp only [List.mem_cons, List.not_mem_nil, or_false] at hn
    rcases hn with rfl | rfl <;> exact ⟨by decide, by decide, by decide, by decide⟩
  have hout : ¬ ["project", ".deployments.testnet.json"] <+: ["project", "artifacts", "ts"] := by
    decide
  exact ⟨hnames, hout, (specifier_leads_to_file hnames hout).1⟩

/-- A folder whose name begins with two dots: the specifier of a file in it names a package. -/
theorem dotted_folder_is_no_path :
    (∀ n ∈ ["project", "..old", "manifest.json"], IsEntryName n) ∧
      ¬ ["project", "..old", "manifest.json"] <+: ["project"] ∧
      specifier (relative ["project"] ["project", "..old", "manifest.json"]) =
        "..old/manifest.json" ∧
      ¬ IsRelative "..old/manifest.json" := by
  refine ⟨?_, by decide, by decide, by decide⟩
  intro n hn
  simp only [List.mem_cons, List.not_mem_nil, or_false] at hn
  rcases hn with rfl | rfl | rfl <;> exact ⟨by decide, by decide, by decide, by decide⟩

end TypedBindings.Path
