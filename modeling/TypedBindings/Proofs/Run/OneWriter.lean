import Mathlib.Data.List.Nodup
import TypedBindings.Proofs.Artifact.Lowering
import TypedBindings.Proofs.Files.Directory
import TypedBindings.Proofs.OrderedMap
import TypedBindings.Proofs.Run.Course

/-!
# One writer for each output file

Contracts and shared units get their files from their names alone. Two artifacts with one contract
name, or a contract with the name of a shared unit, meet in one file, and the unit that is written
last stays.

* `Course.HasOneWriter`: no file is written twice, and every contract's file has the contract's unit.
* `Course.IsUnambiguous`: the courses for which that holds.
* `one_writer_iff`: it holds for no other course; and if names are plain and no link stands in the
  output directory, distinct names are enough.
-/

namespace TypedBindings

open TypeScript

/-! ## Names of units -/

/-- A contract's unit has the name of the contract. -/
theorem name_of_bindContract {p : Project} {a : Artifact.Contract} {path : String} {u : SourceUnit}
    (h : bindContract p a path = .ok u) : u.name = a.name := by
  unfold bindContract at h
  obtain ⟨abi, habi, h⟩ := exists_of_bind_eq_ok h
  unfold Binding.contractUnit? at h
  split at h
  · cases h
    refine Artifact.Contract.name_of_lower ?_
    cases hl : a.lower with
    | error fault => rw [hl] at habi; cases habi
    | ok abi' => rw [hl] at habi; cases habi; rfl
  · cases h

theorem fileName_eq (u : SourceUnit) : u.fileName = u.name ++ ".ts" := by
  unfold SourceUnit.fileName
  rw [String.append_assoc]; rfl

/-- Units of different names are written to different files. -/
theorem fileName_inj {u v : SourceUnit} : u.fileName = v.fileName ↔ u.name = v.name := by
  rw [fileName_eq, fileName_eq]
  constructor
  · intro h
    exact String.append_left_inj _ |>.1 h
  · intro h
    rw [h]

namespace Course

variable {c : Course} {o : RunOptions} {t final : FileTree} {report : Report} {u : SourceUnit}

/-- A unit that was bound comes from the artifact of a contract. -/
theorem mem_bound : u ∈ c.bound ↔
    ∃ f ∈ c.artifacts, ∃ a, f.artifact = .contract a ∧ bindContract c.project a f.path = .ok u := by
  unfold bound
  rw [List.mem_filterMap]
  refine exists_congr fun f => and_congr_right fun _ => ?_
  unfold boundUnit?
  cases f.artifact with
  | script s => simp
  | contract a =>
    dsimp only
    cases h : bindContract c.project a f.path <;> simp [Except.toOption, h]

/-- A contract's unit has the contract's name. -/
theorem names_bound (c : Course) : c.bound.map SourceUnit.name = c.contracts := by
  unfold bound contracts
  rw [List.map_filterMap]
  refine List.filterMap_congr fun f _ => ?_
  unfold boundUnit? boundContract?
  cases f.artifact with
  | script s => rfl
  | contract a =>
    dsimp only
    cases h : bindContract c.project a f.path with
    | error fault => rfl
    | ok u => rw [Except.toOption, Option.map_some, Option.map_some, name_of_bindContract h]

/-- The names of the units that do not belong to a contract. -/
def sharedNames (c : Course) (o : RunOptions) : List String :=
  [Binding.scriptsUnitName, Binding.contractsUnitName, Binding.utilsUnitName,
      Binding.indexUnitName] ++
    if writesDeployments o c.manifests then [Binding.deploymentsUnitName] else []

/-- The names of all units, in the order in which they are written. -/
theorem names_units (c : Course) (o : RunOptions) :
    (c.units o).map SourceUnit.name = c.contracts ++ c.sharedNames o := by
  have hdeployments : (c.deployments o).map SourceUnit.name =
      if writesDeployments o c.manifests then [Binding.deploymentsUnitName] else [] := by
    unfold deployments deploymentUnits
    split <;> rfl
  unfold units sharedNames
  rw [List.map_append, List.map_append, names_bound, hdeployments, List.append_assoc]
  rfl

/-! ## One writer -/

/-- **One writer for each file.** No file is written twice, and the file of every contract with a
binding has the unit of its own artifact. -/
structure HasOneWriter (c : Course) (o : RunOptions) (final : FileTree) (report : Report) : Prop where
  distinct : report.generated.Nodup
  own : ∀ f ∈ c.artifacts, ∀ a u, f.artifact = .contract a →
    bindContract c.project a f.path = .ok u →
    final.readText (Path.join o.outputDir (a.name ++ ".ts")) = some u.render

/-- The units that are written to the same place as another one. -/
def writers (c : Course) (o : RunOptions) (u : SourceUnit) : List SourceUnit :=
  c.cleared.writersTo o.outputDir (c.units o) (Path.join o.outputDir u.fileName)

/-- **No unit gets in another one's way**: names are distinct, and where several paths lead to one
place the last unit has the text of every contract's unit among them. -/
structure IsUnambiguous (c : Course) (o : RunOptions) : Prop where
  names : (c.contracts ++ c.sharedNames o).Nodup
  last : ∀ u ∈ c.bound, ∃ v, (c.writers o u).getLast? = some v ∧ v.render = u.render

/-- No link stands in the cleared output directory under the name of a unit's file. -/
def HasNoLinks (c : Course) (o : RunOptions) : Prop :=
  ∀ base, c.cleared.resolve true o.outputDir = .found base → ∀ u ∈ c.units o, ∀ target,
    c.cleared.entry? (base ++ [u.fileName]) ≠ some (.link target)

/-- A whole run has written its units one after the other. -/
theorem IsOf.writeAll (h : c.IsOf o t final report) :
    c.cleared.writeAll o.outputDir (c.units o) = some final := by
  unfold units
  rw [FileTree.writeAll_append, h.early]
  exact h.final

/-- No file is reported twice exactly if no two units have one name. -/
theorem nodup_generated_iff (h : c.IsOf o t final report) :
    report.generated.Nodup ↔ (c.contracts ++ c.sharedNames o).Nodup := by
  have hinj : Function.Injective fun name : String => name ++ ".ts" := fun a b hab =>
    (String.append_left_inj _).1 hab
  have hfiles : (c.units o).map SourceUnit.fileName =
      (c.contracts ++ c.sharedNames o).map (· ++ ".ts") := by
    rw [← names_units, List.map_map]
    exact List.map_congr_left fun u _ => fileName_eq u
  rw [h.report, hfiles]
  exact List.nodup_map_iff hinj

/-- The file of a unit has the text of the unit that is written last to its place. -/
theorem readText_eq (h : c.IsOf o t final report) (hu : u ∈ c.units o) :
    ∃ v, (c.writers o u).getLast? = some v ∧
      final.readText (Path.join o.outputDir u.fileName) = some v.render := by
  obtain ⟨v, -, -, hlast⟩ : ∃ v ∈ c.units o, _ ∧ (c.writers o u).getLast? = some v :=
    exists_getLast?_filter hu (decide_eq_true rfl)
  refine ⟨v, hlast, ?_⟩
  have hread := FileTree.readText_writeAll h.writeAll (Path.join o.outputDir u.fileName)
  unfold writers at hlast
  rw [hlast] at hread
  exact hread

/-- Every contract has its own file exactly if the last unit of each name renders as each of them.
-/
theorem own_iff (h : c.IsOf o t final report) :
    (∀ f ∈ c.artifacts, ∀ a u, f.artifact = .contract a →
        bindContract c.project a f.path = .ok u →
        final.readText (Path.join o.outputDir (a.name ++ ".ts")) = some u.render) ↔
      ∀ u ∈ c.bound, ∃ v, (c.writers o u).getLast? = some v ∧ v.render = u.render := by
  have hunits : ∀ u ∈ c.bound, u ∈ c.units o := fun u hu =>
    List.mem_append_left _ (List.mem_append_left _ hu)
  constructor
  · intro hown u hu
    obtain ⟨f, hf, a, ha, hbind⟩ := mem_bound.1 hu
    obtain ⟨v, hv, hread⟩ := readText_eq h (hunits u hu)
    refine ⟨v, hv, ?_⟩
    rw [fileName_eq, name_of_bindContract hbind, hown f hf a u ha hbind] at hread
    exact (Option.some.inj hread).symm
  · intro hlast f hf a u ha hbind
    have hu : u ∈ c.bound := mem_bound.2 ⟨f, hf, a, ha, hbind⟩
    obtain ⟨v, hv, hread⟩ := readText_eq h (hunits u hu)
    obtain ⟨v', hv', hrender⟩ := hlast u hu
    cases hv.symm.trans hv'
    rw [← name_of_bindContract hbind, ← fileName_eq, hread, hrender]

/-- One writer is the same as no ambiguity. -/
theorem hasOneWriter_iff (h : c.IsOf o t final report) :
    c.HasOneWriter o final report ↔ c.IsUnambiguous o :=
  ⟨fun hone => ⟨(nodup_generated_iff h).1 hone.distinct, (own_iff h).1 hone.own⟩,
    fun hclear => ⟨(nodup_generated_iff h).2 hclear.names, (own_iff h).2 hclear.last⟩⟩

/-! ## Plain names -/

/-- The path of the output directory is not empty and ends in no slash. -/
theorem isDirPath_outputDir (o : RunOptions) : IsDirPath o.outputDir := by
  have hchars : ∃ front, o.outputDir.toList = front ++ ['t', 's'] := by
    unfold RunOptions.outputDir Path.join
    split
    · exact ⟨[], rfl⟩
    split
    · exact ⟨o.artifactDir.toList, String.toList_append⟩
    · exact ⟨o.artifactDir.toList ++ ['/'], by
        rw [String.toList_append, String.toList_append]; rfl⟩
  obtain ⟨front, hfront⟩ := hchars
  refine ⟨fun he => ?_, ?_⟩
  · rw [he] at hfront
    simp at hfront
  · unfold Path.endsInSlash
    rw [hfront]
    simp

/-- The file of a unit without a slash in its name stands in the directory itself. -/
theorem isEntryName_fileName (hname : '/' ∉ u.name.toList) : IsEntryName u.fileName := by
  have hchars : u.fileName.toList = u.name.toList ++ ['.', 't', 's'] := by
    rw [fileName_eq, String.toList_append]; rfl
  have hne : ∀ text : String, text.toList.getLast? ≠ some 's' → u.fileName ≠ text := by
    intro text hlast he
    rw [← he, hchars] at hlast
    simp at hlast
  refine ⟨hne "" (by decide), ?_, hne "." (by decide), hne ".." (by decide)⟩
  rw [hchars, List.mem_append]
  exact fun h => h.elim hname (by decide)

theorem no_slash_units (hnames : ∀ name ∈ c.contracts, '/' ∉ name.toList) (hu : u ∈ c.units o) :
    '/' ∉ u.name.toList := by
  have hshared : ∀ name ∈ c.sharedNames o, '/' ∉ name.toList := by
    unfold sharedNames
    split <;> decide
  have hname : u.name ∈ c.contracts ++ c.sharedNames o := by
    rw [← names_units]; exact List.mem_map_of_mem hu
  rcases List.mem_append.1 hname with hname | hname
  · exact hnames _ hname
  · exact hshared _ hname

/-- Without links a plain name leads to a place of its own. -/
theorem place?_fileName (h : c.IsOf o t final report) (hlinks : c.HasNoLinks o)
    (hnames : ∀ name ∈ c.contracts, '/' ∉ name.toList) :
    ∃ base, ∀ u ∈ c.units o,
      c.cleared.place? (Path.join o.outputDir u.fileName) = some (base ++ [u.fileName]) := by
  have hplace : ∀ u ∈ c.units o, ∃ base, c.cleared.resolve true o.outputDir = .found base ∧
      c.cleared.place? (Path.join o.outputDir u.fileName) = some (base ++ [u.fileName]) := by
    intro u hu
    obtain ⟨place, hp⟩ := FileTree.place?_of_writeAll h.writeAll u hu
    obtain ⟨base, hbase, hin⟩ := FileTree.place?_join (isDirPath_outputDir o)
      (isEntryName_fileName (no_slash_units hnames hu)) hp
    exact ⟨base, hbase, by rw [hp, hin fun target => hlinks base hbase u hu target]⟩
  -- One unit is always written, so there is a directory that the others are in as well.
  have hutils : Binding.utilsUnit ∈ c.units o :=
    List.mem_append_left _ (List.mem_append_right _ (by simp [shared]))
  obtain ⟨base, hbase, -⟩ := hplace _ hutils
  refine ⟨base, fun u hu => ?_⟩
  obtain ⟨base', hbase', hp⟩ := hplace u hu
  cases hbase.symm.trans hbase'
  exact hp

/-- If names are plain and no link is in the way, distinct names are enough. -/
theorem isUnambiguous_iff (h : c.IsOf o t final report) (hlinks : c.HasNoLinks o)
    (hnames : ∀ name ∈ c.contracts, '/' ∉ name.toList) :
    c.IsUnambiguous o ↔ (c.contracts ++ c.sharedNames o).Nodup := by
  refine ⟨IsUnambiguous.names, fun hnodup => ⟨hnodup, fun u hu => ?_⟩⟩
  have hu : u ∈ c.units o := List.mem_append_left _ (List.mem_append_left _ hu)
  obtain ⟨v, hv, -⟩ := readText_eq h hu
  obtain ⟨base, hplace⟩ := place?_fileName h hlinks hnames
  obtain ⟨hvunits, hsame⟩ := List.mem_filter.1 (List.mem_of_getLast? hv)
  have hsame := of_decide_eq_true hsame
  rw [hplace v hvunits, hplace u hu] at hsame
  have hname : v.name = u.name := fileName_inj.1 (by simpa using hsame)
  rw [← names_units] at hnodup
  exact ⟨v, hv, by rw [List.inj_on_of_nodup_map hnodup hvunits hu hname]⟩

end Course

/-- **Which runs have one writer for each file.** -/
theorem one_writer_iff {o : RunOptions} {t : FileTree} {report : Report}
    (h : ((codegen o).outcome t).result = .ok report) :
    ∃ c : Course, c.IsOf o t ((codegen o).outcome t).tree report ∧
      (c.HasOneWriter o ((codegen o).outcome t).tree report ↔ c.IsUnambiguous o) ∧
      (c.HasNoLinks o → (∀ name ∈ c.contracts, '/' ∉ name.toList) →
        (c.HasOneWriter o ((codegen o).outcome t).tree report ↔
          (c.contracts ++ c.sharedNames o).Nodup)) := by
  obtain ⟨c, hc⟩ := codegen_eq_ok_iff.1 ⟨h, rfl⟩
  refine ⟨c, hc, Course.hasOneWriter_iff hc, fun hlinks hnames => ?_⟩
  exact (Course.hasOneWriter_iff hc).trans (Course.isUnambiguous_iff hc hlinks hnames)

/-! ### Two artifacts with one contract name -/

/-- Files that are listed in the order of the walk are found in this order. -/
theorem candidates_of_ordered {t : FileTree} {dir : String} {place : List String}
    (hplace : t.canonical? dir = some place)
    (hways : (t.entries.filterMap (FileTree.fileBelow? place)).Pairwise
      fun a b => FileTree.comesBefore a.way b.way = true) :
    candidates t dir = (t.entries.filterMap (FileTree.fileBelow? place)).filter isCandidate := by
  unfold candidates FileTree.filesUnder
  rw [hplace]
  dsimp only
  rw [List.mergeSort_of_pairwise hways]

/-- Artifacts that are found in the order of their names stay in this order. -/
theorem artifacts_of_ordered {t : FileTree} {dir : String} {files : List FileTree.FoundFile}
    (hfiles : candidates t dir = files)
    (hnames : (files.foldr (Discovery.add dir) ⟨[], []⟩).artifacts.Pairwise
      fun a b => decide (a.artifact.name ≤ b.artifact.name) = true) :
    (t.discovery dir).artifacts = (files.foldr (Discovery.add dir) ⟨[], []⟩).artifacts := by
  unfold FileTree.discovery Discovery.ofFiles
  rw [hfiles]
  dsimp only
  unfold Discovery.sort
  rw [List.mergeSort_of_pairwise hnames]

/-- An artifact of a contract without anything in it. -/
def emptyContractText : String :=
  "\x7b\"name\":\"A\",\"bytecode\":\"\",\"codeHash\":\"\"," ++
    "\"fieldsSig\":\x7b\"names\":[],\"types\":[]\x7d\x7d"

def oneInfoText : String :=
  "\x7b\"infos\":\x7b\"A\":\x7b\"sourceFile\":\"\"," ++
    "\"bytecodeDebugPatch\":\"\",\"codeHashDebug\":\"\"\x7d\x7d\x7d"

/-- Two folders with an artifact of the same contract name in each. -/
def twoFoldersTree : FileTree where
  entries :=
    [(["work", ".project.json"], .file (some oneInfoText)), (["work", "x"], .dir),
      (["work", "x", "A.ral.json"], .file (some emptyContractText)), (["work", "y"], .dir),
      (["work", "y", "A.ral.json"], .file (some emptyContractText))]
  workDir := ["work"]

/-- A run in the working directory, without deployments to read. -/
def hereOptions : RunOptions := ⟨".", ".", false, []⟩

/-- The tree when the output directory has been made. -/
def twoFoldersCleared : FileTree :=
  { twoFoldersTree with entries := twoFoldersTree.entries ++ [(["work", "ts"], .dir)] }

@[irreducible] def twoFoldersProject : Project :=
  (twoFoldersCleared.project? hereOptions.artifactDir).get (by decide +kernel)

def twoFoldersFiles : List FileTree.FoundFile :=
  [⟨["x", "A.ral.json"], some emptyContractText⟩, ⟨["y", "A.ral.json"], some emptyContractText⟩]

/-- The artifacts that are found, before they are sorted. -/
@[irreducible] def twoFoldersArtifacts : List FoundArtifact :=
  (twoFoldersFiles.foldr (Discovery.add ".") ⟨[], []⟩).artifacts

/-- Both artifacts are found below the working directory. -/
theorem twoFolders_candidates : candidates twoFoldersCleared "." = twoFoldersFiles := by
  have hplace : twoFoldersCleared.canonical? "." = some ["work"] := rfl
  rw [candidates_of_ordered hplace (by decide +kernel)]
  rfl

theorem twoFolders_artifacts :
    twoFoldersArtifacts = (twoFoldersCleared.discovery ".").artifacts := by
  unfold twoFoldersArtifacts
  exact (artifacts_of_ordered twoFolders_candidates (by decide +kernel)).symm

theorem twoFolders_names :
    twoFoldersArtifacts.filterMap (boundContract? twoFoldersProject) = ["A", "A"] := by
  decide +kernel

/-- What is written before the unit of the deployments. -/
def twoFoldersUnits : List SourceUnit :=
  twoFoldersArtifacts.filterMap (boundUnit? twoFoldersProject) ++
    [Binding.scriptsUnit (twoFoldersArtifacts.filterMap boundScript?),
      Binding.contractsUnit ["A", "A"], Binding.utilsUnit, Binding.indexUnit ["A", "A"]]

/-- Both units of the one name can be written. -/
theorem twoFolders_written :
    (twoFoldersCleared.writeAll hereOptions.outputDir twoFoldersUnits).isSome = true := by
  decide +kernel

theorem twoFolders_cleared :
    twoFoldersTree.cleared? hereOptions.outputDir = some twoFoldersCleared := rfl

theorem twoFolders_project :
    twoFoldersCleared.project? hereOptions.artifactDir = some twoFoldersProject := by
  unfold twoFoldersProject
  rw [Option.some_get]

/-- The course of the run, given the tree that it ends with. -/
def twoFoldersCourse (early : FileTree) : Course where
  cleared := twoFoldersCleared
  project := twoFoldersProject
  artifacts := twoFoldersArtifacts
  early
  manifests := ⟨[]⟩
  imports := []

theorem twoFolders_contracts (early : FileTree) :
    (twoFoldersCourse early).contracts = ["A", "A"] := by
  unfold Course.contracts twoFoldersCourse
  exact twoFolders_names

/-- The units of the run, with two of the one name among them. -/
theorem twoFolders_units (early : FileTree) :
    (twoFoldersCourse early).bound ++ (twoFoldersCourse early).shared = twoFoldersUnits := by
  unfold Course.shared
  rw [twoFolders_contracts]
  rfl

theorem twoFolders_isOf : ∃ early report,
    (twoFoldersCourse early).IsOf hereOptions twoFoldersTree early report := by
  obtain ⟨early, hearly⟩ := Option.isSome_iff_exists.1 twoFolders_written
  refine ⟨early, _, twoFolders_cleared, twoFolders_project, twoFolders_artifacts, ?_, rfl, ?_, rfl,
    rfl⟩
  · rw [twoFolders_units]
    exact hearly
  · intro h
    cases h

theorem one_writer_iff_two_folders : ∃ report,
    ((codegen hereOptions).outcome twoFoldersTree).result = .ok report ∧
      ∃ c : Course, c.IsOf hereOptions twoFoldersTree
          ((codegen hereOptions).outcome twoFoldersTree).tree report ∧
        (c.HasOneWriter hereOptions ((codegen hereOptions).outcome twoFoldersTree).tree report ↔
          c.IsUnambiguous hereOptions) ∧
        (c.HasNoLinks hereOptions → (∀ name ∈ c.contracts, '/' ∉ name.toList) →
          (c.HasOneWriter hereOptions ((codegen hereOptions).outcome twoFoldersTree).tree report ↔
            (c.contracts ++ c.sharedNames hereOptions).Nodup)) := by
  obtain ⟨early, report, hcourse⟩ := twoFolders_isOf
  have hok := (codegen_eq_ok_iff.2 ⟨_, hcourse⟩).1
  exact ⟨report, hok, one_writer_iff hok⟩

/-- A file is reported twice. -/
theorem same_file_written_twice : ∃ report,
    ((codegen hereOptions).outcome twoFoldersTree).result = .ok report ∧
      ¬ report.generated.Nodup := by
  obtain ⟨early, report, hcourse⟩ := twoFolders_isOf
  refine ⟨report, (codegen_eq_ok_iff.2 ⟨_, hcourse⟩).1, fun hnodup => ?_⟩
  have hnames := (Course.nodup_generated_iff hcourse).1 hnodup
  rw [twoFolders_contracts] at hnames
  simp at hnames

end TypedBindings
