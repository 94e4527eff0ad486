import TypedBindings.Artifact.Document
import TypedBindings.Proofs.Abi.Constant
import TypedBindings.Proofs.Json.Rewriting

/-!
# Artifacts read back

* `ofJson_toJson`: the document of an artifact reads back, a contract as a contract and a script as
  a script.
* `isTidy_toJson`: it is plain, and no object in it has two members of one name.
* `ofTextWithin_write`: an artifact reads back from its text.
-/

namespace TypedBindings.Artifact

open Json Json.Record

/-! ## Reading -/

/-- A written list of strings is read back. -/
theorem strings_write (xs : List String) : strings (stringsJson xs) = .ok xs :=
  asList_write fun _ _ => rfl

theorem bools_write (xs : List Bool) : bools (boolsJson xs) = .ok xs :=
  asList_write fun _ _ => rfl

/-- All three lists are read back, each under its own name. -/
theorem Fields.read_toJson (f : Fields) : Fields.record.read f.toJson = .ok f := by
  obtain ⟨names, types, isMutable⟩ := f
  refine ReadsFrom.read (.seq (.seq (.map ?_ _) ?_) ?_) rfl
  · exact .required rfl (strings_write names)
  · exact .required rfl (strings_write types)
  · exact .defaulted rfl (bools_write isMutable)

/-- An event is read back. -/
theorem Event.read_toJson (e : Event) : Event.record.read e.toJson = .ok e := by
  obtain ⟨name, fieldNames, fieldTypes⟩ := e
  refine ReadsFrom.read (.seq (.seq (.map ?_ _) ?_) ?_) rfl
  · exact .required rfl rfl
  · exact .required rfl (strings_write fieldNames)
  · exact .required rfl (strings_write fieldTypes)

/-- A function is read back, its flags and types included. -/
theorem Function.read_toJson (f : Function) : Function.record.read f.toJson = .ok f := by
  obtain ⟨name, usesPreapproved, usesContract, isPublic, paramNames, paramTypes, paramIsMutable,
    returnTypes⟩ := f
  refine ReadsFrom.read
    (.seq (.seq (.seq (.seq (.seq (.seq (.seq (.map ?_ _) ?_) ?_) ?_) ?_) ?_) ?_) ?_) rfl
  · exact .required rfl rfl
  · exact .defaulted rfl rfl
  · exact .defaulted rfl rfl
  · exact .required rfl rfl
  · exact .required rfl (strings_write paramNames)
  · exact .required rfl (strings_write paramTypes)
  · exact .defaulted rfl (bools_write paramIsMutable)
  · exact .required rfl (strings_write returnTypes)

/-- A named constant is read back, since its value is. -/
theorem namedConstant_read (c : Abi.NamedConstant) :
    namedConstant.read (namedConstantJson c) = .ok c := by
  obtain ⟨name, value⟩ := c
  refine ReadsFrom.read (.seq (.map ?_ _) ?_) rfl
  · exact .required rfl rfl
  · exact .required rfl (Abi.Constant.ofJson_toJson value)

/-- An enum is read back, member by member. -/
theorem enum_read (e : Abi.Enum) : enum.read (enumJson e) = .ok e := by
  obtain ⟨name, members⟩ := e
  refine ReadsFrom.read (.seq (.map ?_ _) ?_) rfl
  · exact .required rfl rfl
  · exact .required rfl (asList_write fun c _ => namedConstant_read c)

/-- A contract is read back. Its members have names of their own, so none is in another's way. -/
theorem Contract.read_toJson (c : Contract) : Contract.record.read c.toJson = .ok c := by
  obtain ⟨version, name, bytecode, codeHash, fields, events, functions, constants, enums⟩ := c
  refine ReadsFrom.read
    (.seq (.seq (.seq (.seq (.seq (.seq (.seq (.seq (.map ?_ _) ?_) ?_) ?_) ?_) ?_) ?_) ?_) ?_) rfl
  · exact .defaulted rfl rfl
  · exact .required rfl rfl
  · exact .required rfl rfl
  · exact .required rfl rfl
  · exact .required rfl fields.read_toJson
  · exact .defaulted rfl (asList_write fun e _ => e.read_toJson)
  · exact .defaulted rfl (asList_write fun f _ => f.read_toJson)
  · exact .defaulted rfl (asList_write fun c _ => namedConstant_read c)
  · exact .defaulted rfl (asList_write fun e _ => enum_read e)

/-- A script is read back. -/
theorem Script.read_toJson (s : Script) : Script.record.read s.toJson = .ok s := by
  obtain ⟨version, name, bytecodeTemplate, fields, functions⟩ := s
  refine ReadsFrom.read (.seq (.seq (.seq (.seq (.map ?_ _) ?_) ?_) ?_) ?_) rfl
  · exact .defaulted rfl rfl
  · exact .required rfl rfl
  · exact .required rfl rfl
  · exact .required rfl fields.read_toJson
  · exact .defaulted rfl (asList_write fun f _ => f.read_toJson)

/-- **The document of an artifact reads back**, a contract as a contract and a script as a
script. -/
theorem ofJson_toJson (a : Artifact) : ofJson a.toJson = .ok a := by
  cases a with
  | contract c =>
    have hkind : (c.toJson.get? "bytecodeTemplate").isSome = false := rfl
    simp [ofJson, toJson, hkind, c.read_toJson, Except.map]
  | script s =>
    have hkind : (s.toJson.get? "bytecodeTemplate").isSome = true := rfl
    simp [ofJson, toJson, hkind, s.read_toJson, Except.map]

/-! ## Texts -/

/-- A list of strings has no names that it could repeat. -/
theorem isTidy_strings (xs : List String) : (stringsJson xs).IsTidy := isTidy_map isTidy_str xs

theorem isTidy_bools (xs : List Bool) : (boolsJson xs).IsTidy := isTidy_map isTidy_bool xs

theorem Fields.isTidy_toJson (f : Fields) : f.toJson.IsTidy :=
  .obj (show List.Nodup ["names", "types", "isMutable"] by decide)
    (by simp [isTidy_strings, isTidy_bools])

theorem Event.isTidy_toJson (e : Event) : e.toJson.IsTidy :=
  .obj (show List.Nodup ["name", "fieldNames", "fieldTypes"] by decide) (by simp [isTidy_strings])

theorem Function.isTidy_toJson (f : Function) : f.toJson.IsTidy :=
  .obj (show List.Nodup ["name", "usePreapprovedAssets", "useAssetsInContract", "isPublic",
      "paramNames", "paramTypes", "paramIsMutable", "returnTypes"] by decide)
    (by simp [isTidy_strings, isTidy_bools])

theorem isTidy_namedConstant (c : Abi.NamedConstant) : (namedConstantJson c).IsTidy :=
  .obj (show List.Nodup ["name", "value"] by decide) (by simp [Abi.Constant.isTidy_toJson])

theorem isTidy_enum (e : Abi.Enum) : (enumJson e).IsTidy :=
  .obj (show List.Nodup ["name", "fields"] by decide)
    (by simp [isTidy_map isTidy_namedConstant])

/-- What is written for a contract is tidy, part by part. -/
theorem Contract.isTidy_toJson (c : Contract) : c.toJson.IsTidy :=
  .obj (show List.Nodup ["version", "name", "bytecode", "codeHash", "fieldsSig", "eventsSig",
      "functions", "constants", "enums"] by decide)
    (by simp [Fields.isTidy_toJson, isTidy_map Event.isTidy_toJson,
      isTidy_map Function.isTidy_toJson, isTidy_map isTidy_namedConstant, isTidy_map isTidy_enum])

theorem Script.isTidy_toJson (s : Script) : s.toJson.IsTidy :=
  .obj (show List.Nodup ["version", "name", "bytecodeTemplate", "fieldsSig", "functions"]
      by decide)
    (by simp [Fields.isTidy_toJson, isTidy_map Function.isTidy_toJson])

/-- A written artifact is tidy, so printing and parsing keep it. -/
theorem isTidy_toJson (a : Artifact) : a.toJson.IsTidy := by
  cases a with
  | contract c => exact c.isTidy_toJson
  | script s => exact s.isTidy_toJson

/-- Reads the artifact that a text holds, with room for a nesting. -/
def ofTextWithin (limit : Nat) (text : String) : Except Fault Artifact :=
  match Json.parse? text limit with
  | some v => ofJson v.merged
  | none => .error .torn

/-- Artifacts are read with the parser's own limit on nesting. -/
theorem ofText_eq (text : String) : ofText text = ofTextWithin depthLimit text := rfl

/-- **An artifact reads back from its text.** -/
theorem ofTextWithin_write {a : Artifact} {limit : Nat} (hlimit : a.toJson.depth ≤ limit) :
    ofTextWithin limit a.toJson.write = .ok a := by
  have htidy := isTidy_toJson a
  unfold ofTextWithin
  rw [parse?_write htidy.isPlain hlimit]
  dsimp only
  rw [htidy.merged_eq, ofJson_toJson]

end TypedBindings.Artifact
