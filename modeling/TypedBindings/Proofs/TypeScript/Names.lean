import TypedBindings.Text.Pieces
import TypedBindings.TypeScript.SourceUnit

/-!
# Names that a source unit binds, repeats and refers to

* `SourceUnit.boundNames`: the names that imports and declarations bind at the top of a unit.
* `Expr.parts`: every expression in an expression; `SourceUnit.literalKeys`: the keys of each object
  literal in a unit; `SourceUnit.memberNames`: the names of the members of each object type.
* `Item.references`: the names that the declaration of a type refers to.
* `SourceUnit.CapturesImport`: a namespace declares a type under the name of an import that it refers
  to.
-/

namespace TypedBindings.TypeScript

/-! ## Bound names -/

def Imported.boundNames : Imported → List String
  | .names bound => bound
  | .default bound => [bound]

/-- The names that an item binds where it stands. -/
def Item.boundNames : Item → List String
  | .importDecl decl => decl.imported.boundNames
  | .reExport _ => []
  | .comment _ => []
  | .namespaceDecl name _ => [name]
  | .aliasDecl decl => [decl.name]
  | .interfaceDecl decl => [decl.name]
  | .classDecl decl => [decl.name]
  | .variableDecl declarator _ => [declarator.name]
  | .functionDecl decl => [decl.name]

/-- The names that an item imports. -/
def Item.importedNames : Item → List String
  | .importDecl decl => decl.imported.boundNames
  | _ => []

namespace SourceUnit

/-- The names that a unit binds at its top. -/
def boundNames (u : SourceUnit) : List String := u.items.flatMap Item.boundNames

/-- The names that a unit imports. -/
def importedNames (u : SourceUnit) : List String := u.items.flatMap Item.importedNames

end SourceUnit

/-! ## Expressions in expressions -/

mutual

/-- Every expression in an expression, itself first. -/
def Expr.parts : Expr → List Expr
  | .ident path => [.ident path]
  | .str text => [.str text]
  | .bigInt digits => [.bigInt digits]
  | .bool value => [.bool value]
  | .num value => [.num value]
  | .undefined => [.undefined]
  | .array elements => .array elements :: partsOfAll elements
  | .object entries => .object entries :: partsOfEntries entries
  | .call callee typeArgs args => .call callee typeArgs args :: (callee.parts ++ partsOfAll args)
  | .construct className typeArgs args => .construct className typeArgs args :: partsOfAll args
  | .member target name => .member target name :: target.parts
  | .index target key => .index target key :: (target.parts ++ key.parts)
  | .arrow head body => .arrow head body :: body.parts
  | .arrowBlock head body => .arrowBlock head body :: partsOfBlock body
  | .await value => .await value :: value.parts
  | .cast value type => .cast value type :: value.parts
  | .cond test yes no => .cond test yes no :: (test.parts ++ yes.parts ++ no.parts)
  | .binary left op right => .binary left op right :: (left.parts ++ right.parts)
  | .paren inner => .paren inner :: inner.parts

def partsOfAll : List Expr → List Expr
  | [] => []
  | e :: rest => e.parts ++ partsOfAll rest

def partsOfEntries : List (Entry Expr) → List Expr
  | [] => []
  | .field _ value :: rest => value.parts ++ partsOfEntries rest
  | .spread value :: rest => value.parts ++ partsOfEntries rest

/-- Every expression in a statement. -/
def Stmt.parts : Stmt → List Expr
  | .ret value => value.parts
  | .expr value => value.parts
  | .declare _ value => value.parts
  | .branch test yes no => test.parts ++ partsOfBlock yes ++ partsOfBlock no
  | .throw value => value.parts

def partsOfBlock : List Stmt → List Expr
  | [] => []
  | s :: rest => s.parts ++ partsOfBlock rest

end

/-- Every expression in a member of a class. -/
def ClassMember.parts : ClassMember → List Expr
  | .constructor _ body => partsOfBlock body
  | .method m => partsOfBlock m.body
  | .property _ value => value.parts

/-- Every expression in an item; a namespace has only types. -/
def Item.parts : Item → List Expr
  | .classDecl decl => decl.members.flatMap ClassMember.parts
  | .variableDecl _ value => value.parts
  | .functionDecl decl => partsOfBlock decl.body
  | _ => []

/-! ## Keys of object literals -/

/-- The keys of an object literal. -/
def Expr.keys? : Expr → Option (List String)
  | .object entries => some (entries.filterMap Entry.key?)
  | _ => none

/-- The keys of each object literal in an expression. -/
def Expr.literalKeys (e : Expr) : List (List String) := e.parts.filterMap Expr.keys?

/-- The keys of each object literal in a unit. -/
def SourceUnit.literalKeys (u : SourceUnit) : List (List String) :=
  (u.items.flatMap Item.parts).filterMap Expr.keys?

theorem partsOfEntries_fields (fields : List (String × Expr)) :
    partsOfEntries (fields.map fun (key, value) => .field key value) =
      fields.flatMap fun f => f.2.parts := by
  induction fields with
  | nil => rfl
  | cons f rest ih => rw [List.map_cons, partsOfEntries, ih]; rfl

theorem keys?_record (fields : List (String × Expr)) :
    (Expr.record fields).keys? = some (fields.map Prod.fst) := by
  have hkeys : (fields.map fun (key, value) => Entry.field key value).filterMap Entry.key? =
      fields.map Prod.fst := by
    rw [List.filterMap_map]
    exact congrFun List.filterMap_eq_map' fields
  exact congrArg some hkeys

theorem literalKeys_record (fields : List (String × Expr)) :
    (Expr.record fields).literalKeys =
      fields.map Prod.fst :: fields.flatMap fun f => f.2.literalKeys := by
  have hparts : (Expr.record fields).parts =
      Expr.record fields :: fields.flatMap fun f => f.2.parts := by
    unfold Expr.record
    rw [Expr.parts, partsOfEntries_fields]
  unfold Expr.literalKeys
  rw [hparts, List.filterMap_cons, keys?_record, List.filterMap_flatMap]

/-- No object literal in an expression has a key twice. -/
def Expr.HasDistinctKeys (e : Expr) : Prop := ∀ keys ∈ e.literalKeys, keys.Nodup

theorem hasDistinctKeys_of_nil {e : Expr} (h : e.literalKeys = []) : e.HasDistinctKeys := by
  unfold Expr.HasDistinctKeys
  rw [h]
  exact nofun

theorem hasDistinctKeys_record_iff {fields : List (String × Expr)} :
    (Expr.record fields).HasDistinctKeys ↔
      (fields.map Prod.fst).Nodup ∧ ∀ f ∈ fields, f.2.HasDistinctKeys := by
  unfold Expr.HasDistinctKeys
  rw [literalKeys_record, List.forall_mem_cons]
  refine and_congr_right fun _ => ⟨fun h f hf keys hkeys => ?_, fun h keys hkeys => ?_⟩
  · exact h keys (List.mem_flatMap.2 ⟨f, hf, hkeys⟩)
  · obtain ⟨f, hf, hkeys⟩ := List.mem_flatMap.1 hkeys
    exact h f hf keys hkeys

/-! ## Members of object types -/

mutual

/-- The member names of each object type in a type. -/
def Ty.memberNames : Ty → List (List String)
  | .generic _ args => memberNamesOfAll args
  | .tuple elements => memberNamesOfAll elements
  | .object members => members.map Member.name :: memberNamesOfMembers members
  | .union variants => memberNamesOfAll variants
  | .array element => element.memberNames
  | .named _ => []
  | .literal _ => []
  | .raw _ => []

def memberNamesOfAll : List Ty → List (List String)
  | [] => []
  | t :: rest => t.memberNames ++ memberNamesOfAll rest

def memberNamesOfMembers : List (Member Ty) → List (List String)
  | [] => []
  | ⟨_, _, type⟩ :: rest => type.memberNames ++ memberNamesOfMembers rest

end

/-- No object type in a type has a member twice. -/
def Ty.HasDistinctMembers (type : Ty) : Prop := ∀ names ∈ type.memberNames, names.Nodup

theorem hasDistinctMembers_object_iff {members : List (Member Ty)} :
    (Ty.object members).HasDistinctMembers ↔
      (members.map Member.name).Nodup ∧ ∀ m ∈ members, m.type.HasDistinctMembers := by
  have hinner : (∀ names ∈ memberNamesOfMembers members, names.Nodup) ↔
      ∀ m ∈ members, m.type.HasDistinctMembers := by
    induction members with
    | nil =>
      exact iff_of_true nofun nofun
    | cons m rest ih =>
      rw [memberNamesOfMembers, List.forall_mem_append, ih, List.forall_mem_cons]
      rfl
  unfold Ty.HasDistinctMembers
  rw [Ty.memberNames, List.forall_mem_cons, hinner]
  rfl

/-- The member names of each object type that an item declares. -/
def Item.memberNames : Item → List (List String)
  | .aliasDecl decl => decl.type.memberNames
  | .interfaceDecl decl => decl.members.map Member.name :: memberNamesOfMembers decl.members
  | _ => []

/-- The member names of each object type that a unit declares. -/
def SourceUnit.memberNames (u : SourceUnit) : List (List String) := u.items.flatMap Item.memberNames

/-! ## References to types -/

def isIdentifierChar (c : Char) : Bool := c.isAlphanum || c == '_' || c == '$'

/-- A text without what stands between double quotes. -/
def unquoted (isInside : Bool) : List Char → List Char
  | [] => []
  | c :: rest =>
    if c = '\"' then ' ' :: unquoted (!isInside) rest
    else if isInside then unquoted isInside rest
    else c :: unquoted isInside rest

/-- The identifiers in a text, those between double quotes left out. -/
def identifiers (text : String) : List String :=
  (Text.words (!isIdentifierChar ·) (unquoted false text.toList)).map String.ofList

mutual

/-- The names that a type refers to. -/
def Ty.references : Ty → List String
  | .named name => [name]
  | .generic name args => name :: referencesOfAll args
  | .tuple elements => referencesOfAll elements
  | .object members => referencesOfMembers members
  | .union variants => referencesOfAll variants
  | .literal _ => []
  | .array element => element.references
  | .raw text => identifiers text

def referencesOfAll : List Ty → List String
  | [] => []
  | t :: rest => t.references ++ referencesOfAll rest

def referencesOfMembers : List (Member Ty) → List String
  | [] => []
  | ⟨_, _, type⟩ :: rest => type.references ++ referencesOfMembers rest

end

namespace Ty

/-- Whether a type refers to known names only. -/
def RefersOnlyTo (known : List String) (type : Ty) : Prop := ∀ name ∈ type.references, name ∈ known

variable {known : List String} {name text : String} {types : List Ty} {members : List (Member Ty)}

theorem refersOnlyTo_named : (Ty.named name).RefersOnlyTo known ↔ name ∈ known :=
  List.forall_mem_singleton

theorem refersOnlyTo_literal : (Ty.literal text).RefersOnlyTo known := nofun

theorem refersOnlyTo_all :
    (∀ name ∈ referencesOfAll types, name ∈ known) ↔ ∀ type ∈ types, type.RefersOnlyTo known := by
  induction types with
  | nil => exact iff_of_true nofun nofun
  | cons type rest ih =>
    rw [referencesOfAll, List.forall_mem_append, ih, List.forall_mem_cons]
    rfl

theorem refersOnlyTo_members :
    (∀ name ∈ referencesOfMembers members, name ∈ known) ↔
      ∀ m ∈ members, m.type.RefersOnlyTo known := by
  induction members with
  | nil => exact iff_of_true nofun nofun
  | cons m rest ih =>
    rw [referencesOfMembers, List.forall_mem_append, ih, List.forall_mem_cons]
    rfl

theorem refersOnlyTo_generic : (Ty.generic name types).RefersOnlyTo known ↔
    name ∈ known ∧ ∀ type ∈ types, type.RefersOnlyTo known := by
  unfold RefersOnlyTo
  rw [references, List.forall_mem_cons, refersOnlyTo_all]
  rfl

theorem refersOnlyTo_tuple :
    (Ty.tuple types).RefersOnlyTo known ↔ ∀ type ∈ types, type.RefersOnlyTo known :=
  refersOnlyTo_all

theorem refersOnlyTo_union :
    (Ty.union types).RefersOnlyTo known ↔ ∀ type ∈ types, type.RefersOnlyTo known :=
  refersOnlyTo_all

theorem refersOnlyTo_object :
    (Ty.object members).RefersOnlyTo known ↔ ∀ m ∈ members, m.type.RefersOnlyTo known :=
  refersOnlyTo_members

/-- Leaving members out of a type refers to `Omit` besides. -/
theorem refersOnlyTo_without {type : Ty} {keys : List String} :
    (type.without keys).RefersOnlyTo known ↔ "Omit" ∈ known ∧ type.RefersOnlyTo known := by
  -- The keys that are left out are texts, not names.
  have hkeys : (unionOf (keys.map .literal)).RefersOnlyTo known := by
    unfold unionOf
    split
    · next type hkeys =>
      obtain ⟨key, -, rfl⟩ := List.mem_map.1 (hkeys ▸ List.mem_singleton_self type)
      exact refersOnlyTo_literal
    · rw [refersOnlyTo_union]
      intro type htype
      obtain ⟨key, -, rfl⟩ := List.mem_map.1 htype
      exact refersOnlyTo_literal
  unfold without
  rw [refersOnlyTo_generic, List.forall_mem_cons, List.forall_mem_singleton]
  exact ⟨fun h => ⟨h.1, h.2.1⟩, fun h => ⟨h.1, h.2, hkeys⟩⟩

end Ty

/-- The names that the declaration of a type refers to. -/
def Item.references : Item → List String
  | .aliasDecl decl => decl.generics.flatMap identifiers ++ decl.type.references
  | .interfaceDecl decl => referencesOfMembers decl.members
  | _ => []

/-- **A namespace captures an import**: it declares a type under an imported name that its own
declarations refer to. -/
def SourceUnit.CapturesImport (u : SourceUnit) (items : List Item) : Prop :=
  ∃ name ∈ typeNames items, name ∈ u.importedNames ∧ name ∈ items.flatMap Item.references

end TypedBindings.TypeScript
