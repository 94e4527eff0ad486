import TypedBindings.Proofs.TypeScript.Evaluation
import TypedBindings.Proofs.TypeScript.Names

/-!
# Names that resolve

Where a name is used, it has to be bound: by an import or a declaration of the unit, by the
namespace around it, by a parameter of a type or function around it, or by the language.

* `Visible`: what can be referred to at a place.
* `Ty.unresolved`, `Expr.unresolved`, `Item.unresolved`: what is used in a tree and not bound there.
* `SourceUnit.unresolved`: what is used in a unit and not bound.
-/

namespace TypedBindings.TypeScript

/-- A name that is written as source code writes names. -/
structure IsIdentifier (name : String) : Prop where
  ne_empty : name ≠ ""
  chars : ∀ c ∈ name.toList, isIdentifierChar c = true
  start : name.toList.head?.all (!Char.isDigit ·) = true

/-- A use of a name, as a type or as a value. In a path a dot follows what its member is of. -/
inductive Reference where
  | type (path : String)
  | value (path : String)
deriving DecidableEq, Repr

/-- What can be referred to at a place. -/
structure Visible where
  types : List String
  values : List String
  /-- Namespaces with the types that they export. -/
  namespaces : List (String × List String)

namespace Visible

/-- Whether a reference is bound: a type by its name or in a namespace that exports it, a value by
the first name of its path. -/
def binds (s : Visible) : Reference → Bool
  | .type path =>
    match namesOfPath path with
    | [name] => s.types.contains name
    | [owner, name] => s.namespaces.any fun n => n.1 == owner && n.2.contains name
    | _ => false
  | .value path => (namesOfPath path).head?.any s.values.contains

/-- The reference, unless it is bound. -/
def missing (s : Visible) (r : Reference) : List Reference := if s.binds r then [] else [r]

def withTypes (s : Visible) (names : List String) : Visible := { s with types := names ++ s.types }

def withValues (s : Visible) (names : List String) : Visible :=
  { s with values := names ++ s.values }

end Visible

/-! ## Types -/

def isPathChar (c : Char) : Bool := isIdentifierChar c || c == '.'

/-- The paths in a text, what stands between double quotes left out. -/
def pathsIn (text : String) : List String :=
  (Text.words (!isPathChar ·) (unquoted false text.toList)).map String.ofList

/-- The words of the language that types have between their names. -/
def typeKeywords : List String := ["extends", "in", "keyof"]

/-- The names among some words. -/
def withoutKeywords (words : List String) : List String :=
  words.filter fun word => !typeKeywords.contains word

/-- The names that run through the keys of a mapped type: each stands in front of `in`. -/
def keyNames : List String → List String
  | [] => []
  | [_] => []
  | name :: word :: rest =>
    if word = "in" then name :: keyNames rest else keyNames (word :: rest)

/-- What is not bound of the types in some words. -/
def Visible.missingTypes (s : Visible) (words : List String) : List Reference :=
  (withoutKeywords words).flatMap fun path => s.missing (.type path)

mutual

/-- What is used in a type and not bound. -/
def Ty.unresolved (s : Visible) : Ty → List Reference
  | .named name => s.missing (.type name)
  | .generic name args => s.missing (.type name) ++ unresolvedOfTypes s args
  | .tuple elements => unresolvedOfTypes s elements
  | .object members => unresolvedOfMembers s members
  | .union variants => unresolvedOfTypes s variants
  | .literal _ => []
  | .array element => element.unresolved s
  | .raw text => (s.withTypes (keyNames (pathsIn text))).missingTypes (pathsIn text)

def unresolvedOfTypes (s : Visible) : List Ty → List Reference
  | [] => []
  | t :: rest => t.unresolved s ++ unresolvedOfTypes s rest

def unresolvedOfMembers (s : Visible) : List (Member Ty) → List Reference
  | [] => []
  | ⟨_, _, type⟩ :: rest => type.unresolved s ++ unresolvedOfMembers s rest

end

/-! ## Functions -/

/-- What can be referred to behind the type parameters of a declaration. -/
def Visible.withGenerics (s : Visible) (generics : List String) : Visible :=
  s.withTypes (generics.filterMap fun text => (pathsIn text).head?)

/-- What is used in the bounds of type parameters and not bound. -/
def unresolvedBounds (s : Visible) (generics : List String) : List Reference :=
  generics.flatMap fun text => s.missingTypes (pathsIn text).tail

/-- What is used in the types of parameters and of a result, and not bound. -/
def unresolvedSignature (s : Visible) (params : List Param) (returns : Option Ty) :
    List Reference :=
  (params.filterMap Param.type ++ returns.toList).flatMap (Ty.unresolved s)

def Visible.withParams (s : Visible) (params : List Param) : Visible :=
  s.withValues (params.map Param.name)

/-- The names that a statement declares for those behind it. -/
def Stmt.declared : Stmt → List String
  | .declare declarator _ => [declarator.name]
  | _ => []

mutual

/-- What is used in an expression and not bound. Texts, numbers, keys and the names of members refer
to nothing. -/
def Expr.unresolved (s : Visible) : Expr → List Reference
  | .ident path => s.missing (.value path)
  | .str _ => []
  | .bigInt _ => []
  | .bool _ => []
  | .num _ => []
  | .undefined => s.missing (.value "undefined")
  | .array elements => unresolvedOfExprs s elements
  | .object entries => unresolvedOfEntries s entries
  | .call callee typeArgs args =>
    callee.unresolved s ++ typeArgs.flatMap (Ty.unresolved s) ++ unresolvedOfExprs s args
  | .construct className typeArgs args =>
    s.missing (.value className) ++ typeArgs.flatMap (Ty.unresolved s) ++ unresolvedOfExprs s args
  | .member target _ => target.unresolved s
  | .index target key => target.unresolved s ++ key.unresolved s
  | .arrow head body =>
    unresolvedSignature s head.params head.returns ++ body.unresolved (s.withParams head.params)
  | .arrowBlock head body =>
    unresolvedSignature s head.params head.returns ++
      unresolvedOfBlock (s.withParams head.params) body
  | .await value => value.unresolved s
  | .cast value type => value.unresolved s ++ type.unresolved s
  | .cond test yes no => test.unresolved s ++ yes.unresolved s ++ no.unresolved s
  | .binary left _ right => left.unresolved s ++ right.unresolved s
  | .paren inner => inner.unresolved s

def unresolvedOfExprs (s : Visible) : List Expr → List Reference
  | [] => []
  | e :: rest => e.unresolved s ++ unresolvedOfExprs s rest

def unresolvedOfEntries (s : Visible) : List (Entry Expr) → List Reference
  | [] => []
  | .field _ value :: rest => value.unresolved s ++ unresolvedOfEntries s rest
  | .spread value :: rest => value.unresolved s ++ unresolvedOfEntries s rest

/-- What is used in a statement and not bound. -/
def Stmt.unresolved (s : Visible) : Stmt → List Reference
  | .ret value => value.unresolved s
  | .expr value => value.unresolved s
  | .declare declarator value =>
    declarator.type.toList.flatMap (Ty.unresolved s) ++ value.unresolved s
  | .branch test yes no => test.unresolved s ++ unresolvedOfBlock s yes ++ unresolvedOfBlock s no
  | .throw value => value.unresolved s

def unresolvedOfBlock (s : Visible) : List Stmt → List Reference
  | [] => []
  | stmt :: rest => stmt.unresolved s ++ unresolvedOfBlock (s.withValues stmt.declared) rest

end

/-! ## Items -/

/-- The names that an item declares as types. -/
def Item.boundTypes : Item → List String
  | .importDecl decl => decl.imported.boundNames
  | .aliasDecl decl => [decl.name]
  | .interfaceDecl decl => [decl.name]
  | .classDecl decl => [decl.name]
  | _ => []

/-- The names that an item declares as values. -/
def Item.boundValues : Item → List String
  | .importDecl decl => decl.imported.boundNames
  | .classDecl decl => [decl.name]
  | .variableDecl declarator _ => [declarator.name]
  | .functionDecl decl => [decl.name]
  | _ => []

/-- The type that an item exports. -/
def Item.exportedType? : Item → Option String
  | .aliasDecl decl => if decl.isExported then some decl.name else none
  | .interfaceDecl decl => if decl.isExported then some decl.name else none
  | .classDecl decl => if decl.isExported then some decl.name else none
  | _ => none

/-- A namespace and what it exports. -/
def Item.namespace? : Item → Option (String × List String)
  | .namespaceDecl name items => some (name, items.filterMap Item.exportedType?)
  | _ => none

/-- What can be referred to among some items. -/
def Visible.enter (s : Visible) (items : List Item) : Visible where
  types := items.flatMap Item.boundTypes ++ s.types
  values := items.flatMap Item.boundValues ++ s.values
  namespaces := items.filterMap Item.namespace? ++ s.namespaces

/-- What is used in a function and not bound. -/
def unresolvedOfFunction (s : Visible) (generics : List String) (params : List Param)
    (returns : Option Ty) (body : List Stmt) : List Reference :=
  let inner := s.withGenerics generics
  unresolvedBounds inner generics ++ unresolvedSignature inner params returns ++
    unresolvedOfBlock (inner.withParams params) body

/-- What is used in a member of a class and not bound. -/
def ClassMember.unresolved (s : Visible) : ClassMember → List Reference
  | .constructor params body => unresolvedOfFunction s [] params none body
  | .method m => unresolvedOfFunction s m.generics m.params m.returns m.body
  | .property _ value => value.unresolved s

/-- The name of a type whose value is a class. -/
def Ty.className? : Ty → Option String
  | .named name => some name
  | .generic name _ => some name
  | _ => none

/-- What is used in a class and not bound. The class that it extends is a value, too. -/
def ClassDecl.unresolved (s : Visible) (d : ClassDecl) : List Reference :=
  d.parent.toList.flatMap (Ty.unresolved s) ++
    (d.parent.bind Ty.className?).toList.flatMap (fun name => s.missing (.value name)) ++
    d.members.flatMap (ClassMember.unresolved s)

mutual

/-- What is used in an item and not bound. -/
def Item.unresolved (s : Visible) : Item → List Reference
  | .importDecl _ => []
  | .reExport _ => []
  | .comment _ => []
  | .namespaceDecl _ items => unresolvedOfItems (s.enter items) items
  | .aliasDecl decl =>
    unresolvedBounds (s.withGenerics decl.generics) decl.generics ++
      decl.type.unresolved (s.withGenerics decl.generics)
  | .interfaceDecl decl => unresolvedOfMembers s decl.members
  | .classDecl decl => decl.unresolved s
  | .variableDecl declarator value =>
    declarator.type.toList.flatMap (Ty.unresolved s) ++ value.unresolved s
  | .functionDecl decl => unresolvedOfFunction s decl.generics decl.params decl.returns decl.body

def unresolvedOfItems (s : Visible) : List Item → List Reference
  | [] => []
  | item :: rest => item.unresolved s ++ unresolvedOfItems s rest

end

/-- What the language binds: types of primitive values, types made of other ones, and values. -/
def languageNames : Visible where
  types :=
    ["any", "bigint", "boolean", "never", "null", "number", "string", "undefined", "Omit",
      "Partial", "Promise", "Record"]
  values := ["this", "super", "undefined"]
  namespaces := []

/-- What is used in a unit and not bound. -/
def SourceUnit.unresolved (u : SourceUnit) : List Reference :=
  unresolvedOfItems (languageNames.enter u.items) u.items

/-! ## Paths and words -/

section Paths

variable {owner name : String}

theorem namesOfPath_of_no_dot (h : '.' ∉ name.toList) : namesOfPath name = [name] := by
  have hbreak : ∀ c ∈ name.toList, (c == '.') = false := by
    intro c hc
    have hne : c ≠ '.' := fun he => h (he ▸ hc)
    simpa using hne
  unfold namesOfPath
  rw [Text.pieces_of_no_break hbreak, List.map_singleton, String.ofList_toList]

/-- A dot divides the path that it is written in. -/
theorem namesOfPath_member (howner : '.' ∉ owner.toList) :
    namesOfPath (owner ++ "." ++ name) = owner :: namesOfPath name := by
  have hchars : (owner ++ "." ++ name).toList = owner.toList ++ '.' :: name.toList := by
    rw [String.toList_append, String.toList_append, List.append_assoc]; rfl
  have howner := namesOfPath_of_no_dot howner
  unfold namesOfPath at howner ⊢
  rw [hchars, Text.pieces_append (by rfl), List.map_append, howner]
  rfl

theorem IsIdentifier.no_dot (h : IsIdentifier name) : '.' ∉ name.toList := by
  intro hdot
  have hchar := h.chars '.' hdot
  revert hchar
  decide

theorem unquoted_of_no_quote {cs : List Char} (h : '\"' ∉ cs) : unquoted false cs = cs := by
  induction cs with
  | nil => rfl
  | cons c rest ih =>
    have hc : ¬ c = '\"' := fun he => h (he ▸ List.mem_cons_self)
    rw [unquoted, if_neg hc, if_neg (by decide), ih fun hr => h (List.mem_cons_of_mem _ hr)]

/-- A type parameter, its keyword and the path of its bound. -/
theorem pathsIn_bounded {bound : String} (hbound : bound ≠ "")
    (hchars : ∀ c ∈ bound.toList, isPathChar c = true) (param : String)
    (hparam : param ≠ "") (hname : ∀ c ∈ param.toList, isPathChar c = true) :
    pathsIn (param ++ " extends " ++ bound) = [param, "extends", bound] := by
  have htext : (param ++ " extends " ++ bound).toList =
      param.toList ++ ' ' :: ("extends".toList ++ ' ' :: bound.toList) := by
    rw [String.toList_append, String.toList_append, List.append_assoc]; rfl
  have hone : ∀ text : String, text ≠ "" → (∀ c ∈ text.toList, isPathChar c = true) →
      Text.words (!isPathChar ·) text.toList = [text.toList] := by
    intro text hne hall
    exact Text.words_of_no_break (by simpa using hne) fun c hc => by rw [hall c hc]; rfl
  -- Without quotes nothing is taken for a string literal and left out.
  have hquote : '\"' ∉ param.toList ++ ' ' :: ("extends".toList ++ ' ' :: bound.toList) := by
    have hno : ∀ text : String, (∀ c ∈ text.toList, isPathChar c = true) →
        '\"' ∉ text.toList := by
      intro text hall hmem
      have hchar := hall _ hmem
      revert hchar
      decide
    rw [List.mem_append, List.mem_cons, List.mem_append, List.mem_cons]
    rintro (h | h | h | h | h)
    · exact hno param hname h
    · revert h; decide
    · revert h; decide
    · revert h; decide
    · exact hno bound hchars h
  unfold pathsIn
  rw [htext, unquoted_of_no_quote hquote, Text.words_append (by rfl), Text.words_append (by rfl),
    hone param hparam hname, hone bound hbound hchars,
    hone "extends" (by decide) (List.all_eq_true.1 (by decide))]
  simp

end Paths

/-! ## What is bound -/

theorem Item.mem_boundTypes_of_exportedType? {item : Item} {name : String}
    (h : item.exportedType? = some name) : name ∈ item.boundTypes := by
  cases item with
  | aliasDecl decl =>
    obtain ⟨-, hname⟩ := Option.ite_none_right_eq_some.1 h
    exact List.mem_singleton.2 (Option.some.inj hname).symm
  | interfaceDecl decl =>
    obtain ⟨-, hname⟩ := Option.ite_none_right_eq_some.1 h
    exact List.mem_singleton.2 (Option.some.inj hname).symm
  | classDecl decl =>
    obtain ⟨-, hname⟩ := Option.ite_none_right_eq_some.1 h
    exact List.mem_singleton.2 (Option.some.inj hname).symm
  | _ => cases h

section Closed

variable {s : Visible} {name path : String} {r : Reference}

theorem missing_eq_nil_iff : s.missing r = [] ↔ s.binds r = true := by
  unfold Visible.missing
  split <;> simp_all

theorem binds_type (hname : '.' ∉ name.toList) (hmem : name ∈ s.types) :
    s.binds (.type name) = true := by
  unfold Visible.binds
  dsimp only
  rw [namesOfPath_of_no_dot hname]
  exact List.contains_iff_mem.2 hmem

theorem binds_exported {owner : String} {exported : List String} (howner : '.' ∉ owner.toList)
    (hname : '.' ∉ name.toList) (hnamespace : (owner, exported) ∈ s.namespaces)
    (hmem : name ∈ exported) : s.binds (.type (owner ++ "." ++ name)) = true := by
  unfold Visible.binds
  dsimp only
  rw [namesOfPath_member howner, namesOfPath_of_no_dot hname]
  refine List.any_eq_true.2 ⟨_, hnamespace, ?_⟩
  simpa using hmem

theorem binds_value (hhead : (namesOfPath path).head? = some name) (hmem : name ∈ s.values) :
    s.binds (.value path) = true := by
  unfold Visible.binds
  dsimp only
  rw [hhead]
  exact List.contains_iff_mem.2 hmem

theorem unresolvedOfTypes_eq_nil_iff {types : List Ty} :
    unresolvedOfTypes s types = [] ↔ ∀ t ∈ types, t.unresolved s = [] := by
  induction types with
  | nil => exact iff_of_true rfl nofun
  | cons t rest ih => rw [unresolvedOfTypes, List.append_eq_nil_iff, ih, List.forall_mem_cons]

theorem unresolvedOfMembers_eq_nil_iff {members : List (Member Ty)} :
    unresolvedOfMembers s members = [] ↔ ∀ m ∈ members, m.type.unresolved s = [] := by
  induction members with
  | nil => exact iff_of_true rfl nofun
  | cons m rest ih => rw [unresolvedOfMembers, List.append_eq_nil_iff, ih, List.forall_mem_cons]

theorem unresolvedOfItems_eq_nil_iff {items : List Item} :
    unresolvedOfItems s items = [] ↔ ∀ item ∈ items, item.unresolved s = [] := by
  induction items with
  | nil => exact iff_of_true rfl nofun
  | cons item rest ih => rw [unresolvedOfItems, List.append_eq_nil_iff, ih, List.forall_mem_cons]

theorem unresolvedOfExprs_eq_nil_iff {exprs : List Expr} :
    unresolvedOfExprs s exprs = [] ↔ ∀ e ∈ exprs, e.unresolved s = [] := by
  induction exprs with
  | nil => exact iff_of_true rfl nofun
  | cons e rest ih => rw [unresolvedOfExprs, List.append_eq_nil_iff, ih, List.forall_mem_cons]

theorem unresolved_record_eq_nil_iff {fields : List (String × Expr)} :
    (Expr.record fields).unresolved s = [] ↔ ∀ f ∈ fields, f.2.unresolved s = [] := by
  have hentries : unresolvedOfEntries s (fields.map fun f => .field f.1 f.2) = [] ↔
      ∀ f ∈ fields, f.2.unresolved s = [] := by
    induction fields with
    | nil => exact iff_of_true rfl nofun
    | cons f rest ih =>
      rw [List.map_cons, unresolvedOfEntries, List.append_eq_nil_iff, ih, List.forall_mem_cons]
  unfold Expr.record
  rw [Expr.unresolved]
  exact hentries

/-- Leaving members out of a type uses `Omit` besides. -/
theorem unresolved_without_eq_nil_iff {type : Ty} {keys : List String} :
    (type.without keys).unresolved s = [] ↔
      s.binds (.type "Omit") = true ∧ type.unresolved s = [] := by
  have hkeys : (Ty.unionOf (keys.map .literal)).unresolved s = [] := by
    have hall : ∀ t ∈ keys.map Ty.literal, t.unresolved s = [] := by
      intro t ht
      obtain ⟨key, -, rfl⟩ := List.mem_map.1 ht
      rfl
    unfold Ty.unionOf
    split
    · next t ht => exact hall t (ht ▸ List.mem_singleton_self t)
    · rw [Ty.unresolved, unresolvedOfTypes_eq_nil_iff]
      exact hall
  unfold Ty.without
  rw [Ty.unresolved, List.append_eq_nil_iff, missing_eq_nil_iff, unresolvedOfTypes_eq_nil_iff,
    List.forall_mem_cons, List.forall_mem_singleton]
  exact ⟨fun h => ⟨h.1, h.2.1⟩, fun h => ⟨h.1, h.2, hkeys⟩⟩

theorem unresolved_generic_eq_nil_iff {types : List Ty} :
    (Ty.generic name types).unresolved s = [] ↔
      s.binds (.type name) = true ∧ ∀ t ∈ types, t.unresolved s = [] := by
  rw [Ty.unresolved, List.append_eq_nil_iff, missing_eq_nil_iff, unresolvedOfTypes_eq_nil_iff]

theorem missingTypes_eq_nil_iff {words : List String} :
    s.missingTypes words = [] ↔ ∀ word ∈ withoutKeywords words, s.binds (.type word) = true := by
  unfold Visible.missingTypes
  rw [List.flatMap_eq_nil_iff]
  simp only [missing_eq_nil_iff]

theorem unresolved_raw_eq_nil_iff {text : String} {words : List String}
    (hwords : pathsIn text = words) :
    (Ty.raw text).unresolved s = [] ↔
      ∀ word ∈ withoutKeywords words, (s.withTypes (keyNames words)).binds (.type word) = true := by
  subst hwords
  rw [Ty.unresolved, missingTypes_eq_nil_iff]

example : (Ty.raw "Table[T][\"key\"]").unresolved languageNames = [.type "Table", .type "T"] := by
  decide +kernel

section Generics

variable {text param : String} {bound : List String}

theorem withGenerics_singleton (hwords : pathsIn text = param :: bound) :
    s.withGenerics [text] = s.withTypes [param] := by
  unfold Visible.withGenerics
  rw [List.filterMap_cons, hwords]
  rfl

theorem unresolvedBounds_singleton_eq_nil_iff (hwords : pathsIn text = param :: bound) :
    unresolvedBounds s [text] = [] ↔
      ∀ word ∈ withoutKeywords bound, s.binds (.type word) = true := by
  unfold unresolvedBounds
  rw [List.flatMap_singleton, hwords, List.tail_cons, missingTypes_eq_nil_iff]

theorem unresolved_genericAlias_eq_nil_iff {declared : String} {type : Ty}
    (hwords : pathsIn text = param :: bound) :
    (Item.aliasDecl { name := declared, generics := [text], type }).unresolved s = [] ↔
      (∀ word ∈ withoutKeywords bound, (s.withTypes [param]).binds (.type word) = true) ∧
        type.unresolved (s.withTypes [param]) = [] := by
  rw [Item.unresolved, withGenerics_singleton hwords, List.append_eq_nil_iff,
    unresolvedBounds_singleton_eq_nil_iff hwords]

end Generics

/-- A parameter of a function can be referred to inside of it. -/
theorem binds_param {params : List Param} (hname : '.' ∉ name.toList)
    (hmem : name ∈ params.map Param.name) : (s.withParams params).binds (.value name) = true :=
  binds_value (by rw [namesOfPath_of_no_dot hname]; rfl) (List.mem_append_left _ hmem)

theorem unresolved_callNamed_eq_nil_iff {args : List Expr} :
    (Expr.callNamed path args).unresolved s = [] ↔
      s.binds (.value path) = true ∧ ∀ e ∈ args, e.unresolved s = [] := by
  unfold Expr.callNamed
  rw [Expr.unresolved, Expr.unresolved, List.flatMap_nil, List.append_nil, List.append_eq_nil_iff,
    missing_eq_nil_iff, unresolvedOfExprs_eq_nil_iff]

theorem unresolvedSignature_eq_nil_iff {params : List Param} {returns : Ty} :
    unresolvedSignature s params (some returns) = [] ↔
      (∀ t ∈ params.filterMap Param.type, t.unresolved s = []) ∧ returns.unresolved s = [] := by
  unfold unresolvedSignature
  rw [List.flatMap_eq_nil_iff, List.forall_mem_append, Option.toList_some,
    List.forall_mem_singleton]

/-- Of a function without type parameters that only returns a value. -/
theorem unresolvedOfFunction_ret_eq_nil_iff {params : List Param} {returns : Option Ty}
    {value : Expr} :
    unresolvedOfFunction s [] params returns [.ret value] = [] ↔
      unresolvedSignature s params returns = [] ∧
        value.unresolved (s.withParams params) = [] := by
  unfold unresolvedOfFunction
  dsimp only
  rw [List.append_eq_nil_iff, List.append_eq_nil_iff, unresolvedOfBlock, unresolvedOfBlock,
    List.append_nil, Stmt.unresolved]
  exact ⟨fun h => ⟨h.1.2, h.2⟩, fun h => ⟨⟨rfl, h.1⟩, h.2⟩⟩

theorem unresolved_constructor_eq_nil_iff {params : List Param} {body : List Stmt} :
    (ClassMember.constructor params body).unresolved s = [] ↔
      (∀ t ∈ params.filterMap Param.type, t.unresolved s = []) ∧
        unresolvedOfBlock (s.withParams params) body = [] := by
  have hsignature : unresolvedSignature s params none =
      (params.filterMap Param.type).flatMap (Ty.unresolved s) := by
    unfold unresolvedSignature
    rw [Option.toList_none, List.append_nil]
  show unresolvedSignature s params none ++ unresolvedOfBlock (s.withParams params) body = [] ↔ _
  rw [hsignature, List.append_eq_nil_iff, List.flatMap_eq_nil_iff]

theorem unresolved_classDecl_eq_nil_iff {d : ClassDecl} {parent : Ty}
    (hparent : d.parent = some parent) (hname : parent.className? = some name) :
    d.unresolved s = [] ↔
      parent.unresolved s = [] ∧ s.binds (.value name) = true ∧
        ∀ m ∈ d.members, m.unresolved s = [] := by
  unfold ClassDecl.unresolved
  rw [hparent, Option.bind_some, hname, Option.toList_some, Option.toList_some,
    List.flatMap_singleton, List.flatMap_singleton, List.append_eq_nil_iff, List.append_eq_nil_iff,
    missing_eq_nil_iff, List.flatMap_eq_nil_iff, and_assoc]

end Closed

end TypedBindings.TypeScript
