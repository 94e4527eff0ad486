import TypedBindings.Project
import TypedBindings.Proofs.Artifact.Rewriting
import TypedBindings.Proofs.Deployment.Rewriting

/-!
# Documents survive rewriting

Reading forgets how a document was written: the order of its members, which of its forms a record
had, what was left out. What is written afterwards says the same in one form.

* `Project.ofTextWithin_write`: a project that was read reads back from its text.
* `survive_rewriting`: so do artifacts, projects and the records of manifests.
-/

namespace TypedBindings

open Json Json.Record

/-! ## Projects -/

theorem CodeInfo.read_toJson (i : CodeInfo) : CodeInfo.record.read i.toJson = .ok i := by
  obtain ⟨sourceFile, sourceCodeHash, debugPatch, codeHashDebug, warnings⟩ := i
  refine ReadsFrom.read (.seq (.seq (.seq (.seq (.map ?_ _) ?_) ?_) ?_) ?_) rfl
  · exact .required rfl rfl
  · exact .defaulted rfl rfl
  · exact .required rfl rfl
  · exact .required rfl rfl
  · exact .defaulted rfl (asList_write fun _ _ => rfl)

theorem CodeInfo.isTidy_toJson (i : CodeInfo) : i.toJson.IsTidy :=
  .obj (show List.Nodup ["sourceFile", "sourceCodeHash", "bytecodeDebugPatch", "codeHashDebug",
      "warnings"] by decide)
    (by simp [isTidy_map isTidy_str])

namespace Project

/-- No name stands twice among the infos of a project, whichever form it is read from. -/
theorem ensures_isMapWith :
    record.Ensures (fun _ => True) fun p => IsMapWith (fun _ => True) p.infos := by
  have hversion : (optional "fullNodeVersion" asString).Ensures (fun _ => True) fun _ => True :=
    .optional (fun _ _ _ _ => trivial) trivial
  have hinfos : (required "infos" (asMap CodeInfo.record.read)).Ensures (fun _ => True)
      (IsMapWith fun _ => True) :=
    .required fun _ _ _ h => asMap_ensures (fun _ _ _ _ => trivial) (fun _ _ => trivial) h
  exact .seq (.map hversion fun _ _ _ h => h) hinfos

theorem read_toJson {p : Project} (h : IsMapWith (fun _ => True) p.infos) :
    record.read p.toJson = .ok p := by
  obtain ⟨version, infos⟩ := p
  refine ReadsFrom.read (.seq (.map ?_ _) ?_) rfl
  · exact .optional rfl (by cases version <;> rfl)
  · exact .required rfl (asMap_write h _ fun i _ => i.read_toJson)

theorem isTidy_toJson {p : Project} (h : IsMapWith (fun _ => True) p.infos) : p.toJson.IsTidy := by
  obtain ⟨version, infos⟩ := p
  refine .obj (show List.Nodup ["fullNodeVersion", "infos"] by decide) ?_
  simp only [List.forall_mem_cons]
  refine ⟨?_, h.isTidy fun i _ => i.isTidy_toJson, List.forall_mem_nil _⟩
  cases version with
  | none => exact isTidy_null
  | some s => exact isTidy_str s

/-- Reads the project that a text holds, with room for a nesting. -/
def ofTextWithin (limit : Nat) (text : String) : Except Fault Project :=
  readWhole record.read (Json.ofText text limit)

theorem ofText_eq (text : String) : ofText text = ofTextWithin depthLimit text := rfl

/-- **A project that was read reads back from its text.** -/
theorem ofTextWithin_write {text : String} {limit limit' : Nat} {p : Project}
    (h : ofTextWithin limit text = .ok p) (hlimit : p.toJson.depth ≤ limit') :
    ofTextWithin limit' p.toJson.write = .ok p := by
  obtain ⟨p', hp, hwhole⟩ := exists_of_bind_eq_ok h
  have hinfos : IsMapWith (fun _ => True) p.infos := by
    split at hwhole
    · cases hwhole; exact ensures_isMapWith.read (fun _ _ => trivial) hp
    · cases hwhole
  unfold ofTextWithin
  rw [ofText_write (isTidy_toJson hinfos).isPlain hlimit, readWhole, read_toJson hinfos]
  rfl

end Project

/-! ## Documents -/

/-- **Documents survive rewriting.** An artifact, a project or the records of a manifest without
reals, read from any text, are written as a text that reads as the same value, if the limit leaves
room for its nesting. A manifest of one record in its object form and that of the list of it are
read alike. -/
theorem documents_survive_rewriting (text : String) (limit limit' : Nat) :
    (∀ a, Artifact.ofTextWithin limit text = .ok a → a.toJson.depth ≤ limit' →
      Artifact.ofTextWithin limit' a.toJson.write = .ok a) ∧
    (∀ p, Project.ofTextWithin limit text = .ok p → p.toJson.depth ≤ limit' →
      Project.ofTextWithin limit' p.toJson.write = .ok p) ∧
    (∀ rs, Manifest.ofTextWithin limit text = .ok rs → (Json.ofText text limit).1.HasNoReals →
      (Manifest.recordsJson rs).depth ≤ limit' →
      Manifest.ofTextWithin limit' (Manifest.recordsJson rs).write = .ok rs) ∧
    ∀ members list, Json.parse? text limit = some (.obj members) →
      Json.parse? list limit' = some (.arr [.obj members]) →
      Manifest.ofTextWithin limit' list = Manifest.ofTextWithin limit text := by
  refine ⟨fun a _ ha => Artifact.ofTextWithin_write ha, fun p => Project.ofTextWithin_write,
    fun rs => Manifest.ofTextWithin_write, fun members list htext hlist => ?_⟩
  unfold Manifest.ofTextWithin
  rw [htext, hlist]
  exact readRecords_singleton members

/-- A script without a version or functions; its fields are in their array form. -/
def scriptDocument : Json :=
  .obj [("bytecodeTemplate", .str "00"), ("fieldsSig", .arr [.arr [], .arr []]),
    ("name", .str "Main")]

/-- A project in its array form, as is the code info in it. -/
def projectDocument : Json :=
  .arr [.null, .obj [("Coin", .arr [.str "coin.ral", .str "", .str "", .str "ab"])]]

/-- A record whose only result has metadata in front of its instance, with a name that stands twice;
the instance is in its array form. -/
def metadataMembers : List (String × Json) :=
  [("deployerAddress", .str "A"), ("contracts", .obj [("Coin:a", .obj
    [("deploy", .obj [("fee", .int (-7)), ("fee", .arr [.int 1, .bool true])]),
      ("contractInstance", .arr [.str "x"])])])]

/-- The documents are read, without what they say twice, and what was read reads back. -/
theorem documents_survive_rewriting_forms :
    (∃ a, Artifact.ofTextWithin depthLimit scriptDocument.write = .ok a ∧ a.name = "Main" ∧
      Artifact.ofTextWithin depthLimit a.toJson.write = .ok a) ∧
    (∃ p, Project.ofTextWithin depthLimit projectDocument.write = .ok p ∧
      (p.info? "Coin").map CodeInfo.codeHashDebug = some "ab" ∧
      Project.ofTextWithin depthLimit p.toJson.write = .ok p) ∧
    (∃ rs, Manifest.ofTextWithin depthLimit (Json.obj metadataMembers).write = .ok rs ∧
      rs.map DeployerRecord.deployerAddress = ["A"] ∧
      Manifest.ofTextWithin depthLimit (Manifest.recordsJson rs).write = .ok rs) ∧
    Manifest.ofTextWithin depthLimit (Json.arr [.obj metadataMembers]).write =
      Manifest.ofTextWithin depthLimit (Json.obj metadataMembers).write := by
  have hmembers : (Json.obj metadataMembers).IsPlain := by
    simp [metadataMembers, FitsWord, Text.wordSize]
  have htext : Json.parse? (Json.obj metadataMembers).write depthLimit =
      some (.obj metadataMembers) := parse?_write hmembers (by decide)
  have hlist : Json.parse? (Json.arr [.obj metadataMembers]).write depthLimit =
      some (.arr [.obj metadataMembers]) := parse?_write (by simpa using hmembers) (by decide)
  have hscript : Artifact.ofTextWithin depthLimit scriptDocument.write =
      .ok (.script ⟨"", "Main", "00", ⟨[], [], []⟩, []⟩) := by
    unfold Artifact.ofTextWithin
    rw [parse?_write (by simp [scriptDocument]) (by decide)]
    rfl
  have hproject : Project.ofTextWithin depthLimit projectDocument.write =
      .ok ⟨none, [("Coin", ⟨"coin.ral", "", "", "ab", []⟩)]⟩ := by
    unfold Project.ofTextWithin
    rw [ofText_write (by simp [projectDocument]) (by decide)]
    rfl
  have hmanifest : Manifest.ofTextWithin depthLimit (Json.obj metadataMembers).write =
      .ok [⟨"A", [("Coin:a", ⟨"", ⟨"x", none, none⟩,
        [("deploy", .obj [("fee", .arr [.int 1, .bool true])])]⟩)], [], []⟩] := by
    unfold Manifest.ofTextWithin
    rw [htext]
    rfl
  have hreals : (Json.ofText (Json.obj metadataMembers).write depthLimit).1.HasNoReals := by
    rw [ofText_write hmembers (by decide)]
    exact hmembers.hasNoReals
  have hmetadata :=
    documents_survive_rewriting (Json.obj metadataMembers).write depthLimit depthLimit
  exact ⟨⟨_, hscript, rfl, (documents_survive_rewriting _ _ depthLimit).1 _ hscript (by decide)⟩,
    ⟨_, hproject, rfl, (documents_survive_rewriting _ _ depthLimit).2.1 _ hproject (by decide)⟩,
    ⟨_, hmanifest, rfl, hmetadata.2.2.1 _ hmanifest hreals (by decide)⟩,
    hmetadata.2.2.2 _ _ htext hlist⟩

end TypedBindings
