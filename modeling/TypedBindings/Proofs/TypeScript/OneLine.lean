import TypedBindings.Proofs.Text.Number
import TypedBindings.Proofs.Text.Quoted
import TypedBindings.Proofs.TypeScript.Token
import TypedBindings.TypeScript.Render

/-!
# Texts on one line

A type, a parameter and a declaration have no line break in their text if the names in them have
none; strings may have any characters, since line breaks in them are escaped.

* `OneLine`: the texts without a line break; `IsNeat`: besides, not empty where that matters.
* `NeatNames`: the trees, by their tokens, all of whose names are neat.
* `Ty.oneLine_text`, `Param.isNeat_text`, `Declarator.isNeat_text`: the texts of such trees.
* `Item.names`: the names in an item.
-/

namespace TypedBindings.TypeScript

/-! ## Texts on one line -/

/-- A text without a line break. -/
abbrev OneLine (s : String) : Prop := '\n' ∉ s.toList

/-- A text that stays on a line and, in a spaced run, puts something there. -/
def IsNeat (spaced : Prop) (s : String) : Prop := OneLine s ∧ (spaced → s ≠ "")

section

variable {spaced : Prop} {s t : String}

theorem OneLine.append (hs : OneLine s) (ht : OneLine t) : OneLine (s ++ t) := by
  unfold OneLine
  rw [String.toList_append, List.mem_append, not_or]
  exact ⟨hs, ht⟩

/-- A text between two others. -/
theorem OneLine.between (hs : OneLine s) {first last : String} (hfirst : OneLine first)
    (hlast : OneLine last) : OneLine (first ++ s ++ last) := (hfirst.append hs).append hlast

/-- Texts with a separator between them. -/
theorem oneLine_intercalate {sep : String} {texts : List String} (hsep : OneLine sep)
    (h : ∀ s ∈ texts, OneLine s) : OneLine (sep.intercalate texts) := by
  induction texts with
  | nil => exact nofun
  | cons s rest ih =>
    obtain ⟨hs, hrest⟩ := List.forall_mem_cons.1 h
    cases rest with
    | nil => rwa [String.intercalate_singleton]
    | cons next more =>
      rw [String.intercalate_cons_cons]
      exact (hs.append hsep).append (ih hrest)

/-- What the printer tests before an argument may hug its parentheses. -/
theorem isOneLine_iff : isOneLine s = true ↔ OneLine s := by
  simp [isOneLine, OneLine]

/-- A line break is escaped. -/
theorem not_mem_escape (c : Char) : '\n' ∉ Text.escape c := by
  have hdigit : ∀ n, n < 16 → '\n' ≠ Text.hexDigit n := by
    intro n hn
    have hall : ∀ m : Fin 16, '\n' ≠ Text.hexDigit m := by decide
    exact hall ⟨n, hn⟩
  unfold Text.escape
  split_ifs with hquote hslash hback htab hline hfeed hreturn hcontrol
  case pos => decide
  case pos => decide
  case pos => decide
  case pos => decide
  case pos => decide
  case pos => decide
  case pos => decide
  case pos =>
    have hhigh := hdigit (c.toNat / 16) (by omega)
    have hlow := hdigit (c.toNat % 16) (by omega)
    simp [Text.hexByte, hhigh, hlow]
  case neg => exact fun hmem => hline (List.mem_singleton.1 hmem).symm

/-- A string literal stays on one line, whatever the string is. -/
theorem oneLine_quote (s : String) : OneLine (Text.quote s) := by
  unfold OneLine
  rw [Text.toList_quote]
  simp [not_mem_escape]

theorem quote_ne (s : String) : Text.quote s ≠ "" := by
  intro h
  have htoList := Text.toList_quote s
  rw [h] at htoList
  cases htoList

/-- The digits of a number. -/
theorem isNeat_toString (n : Int) : IsNeat spaced (toString n) := by
  have hdigits : '\n' ∉ Nat.toDigits 10 n.natAbs := fun hmem =>
    absurd (Text.isDigit_toDigits hmem) (by decide)
  constructor
  · unfold OneLine
    rw [Text.toList_toString_int]
    split
    · simpa using hdigits
    · exact hdigits
  · intro _ h
    have htoList := Text.toList_toString_int n
    rw [h] at htoList
    split at htoList
    · cases htoList
    · exact Nat.toDigits_ne_nil htoList.symm

/-- A text that is given. -/
theorem IsNeat.fixed (h : OneLine s ∧ s ≠ "") : IsNeat spaced s := ⟨h.1, fun _ => h.2⟩

/-- A text that is not empty stays so with more text behind it. -/
theorem IsNeat.append (hs : IsNeat spaced s) (ht : OneLine t) : IsNeat spaced (s ++ t) :=
  ⟨hs.1.append ht, fun hspaced h => hs.2 hspaced (String.append_eq_empty_iff.1 h).1⟩

theorem IsNeat.append_left (hs : OneLine s) (ht : IsNeat spaced t) : IsNeat spaced (s ++ t) :=
  ⟨hs.append ht.1, fun hspaced h => ht.2 hspaced (String.append_eq_empty_iff.1 h).2⟩

end

/-! ## Names -/

/-- Every name among some tokens is neat. -/
def NeatNames (spaced : Prop) (tokens : List Token) : Prop :=
  ∀ name, Token.name name ∈ tokens → IsNeat spaced name

section

variable {spaced : Prop} {tokens a b : List Token} {parts : List (List Token)}

@[simp] theorem neatNames_nil : NeatNames spaced [] := nofun

/-- Only a token that is a name has to be neat. -/
@[simp] theorem neatNames_cons {t : Token} :
    NeatNames spaced (t :: tokens) ↔
      (∀ name, Token.name name = t → IsNeat spaced name) ∧ NeatNames spaced tokens := by
  simp only [NeatNames, List.mem_cons, or_imp, forall_and]

@[simp] theorem neatNames_append :
    NeatNames spaced (a ++ b) ↔ NeatNames spaced a ∧ NeatNames spaced b := by
  simp only [NeatNames, List.mem_append, or_imp, forall_and]

/-- The marks between parts are no names. -/
@[simp] theorem neatNames_separated {m : Mark} :
    NeatNames spaced (separated m parts) ↔ ∀ part ∈ parts, NeatNames spaced part := by
  unfold separated
  induction parts with
  | nil => simp
  | cons part rest ih =>
    cases rest with
    | nil => simp
    | cons next more => rw [List.intercalate_cons_cons, List.forall_mem_cons, ← ih]; simp

theorem neatNames_flatten :
    NeatNames spaced parts.flatten ↔ ∀ part ∈ parts, NeatNames spaced part := by
  induction parts with
  | nil => simp
  | cons part rest ih => rw [List.flatten_cons, neatNames_append, List.forall_mem_cons, ih]

@[simp] theorem neatNames_listed :
    NeatNames spaced (listed parts) ↔ ∀ part ∈ parts, NeatNames spaced part := neatNames_separated

@[simp] theorem neatNames_enclosed {first last : Mark} :
    NeatNames spaced (enclosed first last tokens) ↔ NeatNames spaced tokens := by
  simp [enclosed]

/-- Parentheses make no difference to the names. -/
@[simp] theorem neatNames_grouped {wanted : Bool} :
    NeatNames spaced (grouped wanted tokens) ↔ NeatNames spaced tokens := by
  cases wanted <;> simp [grouped]

@[simp] theorem neatNames_angled :
    NeatNames spaced (angled parts) ↔ ∀ part ∈ parts, NeatNames spaced part := by
  cases parts <;> simp [angled]

@[simp] theorem neatNames_questionTokens {isOptional : Bool} :
    NeatNames spaced (questionTokens isOptional) := by
  cases isOptional <;> simp [questionTokens]

end

/-! ## Types and parameters -/

theorem oneLine_optionalMark (isOptional : Bool) : OneLine (Ty.optionalMark isOptional) := by
  cases isOptional <;> decide

section

variable {spaced : Prop}

mutual

/-- **The text of a type is on one line.** -/
theorem Ty.oneLine_text (type : Ty) (h : NeatNames spaced type.tokens) : OneLine type.text := by
  match type with
  | .named name => exact (h name (List.mem_singleton_self _)).1
  | .generic name args =>
    obtain ⟨hname, hargs⟩ := by simpa [Ty.tokens] using h
    exact ((hname.1.append (by decide)).append
      (oneLine_intercalate (by decide) (Ty.oneLine_texts args hargs))).append (by decide)
  | .tuple elements =>
    have helements := by simpa [Ty.tokens] using h
    exact (oneLine_intercalate (by decide) (Ty.oneLine_texts elements helements)).between
      (by decide) (by decide)
  | .object [] => rw [Ty.text]; decide
  | .object (m :: ms) =>
    have hmembers := by simpa only [Ty.tokens, neatNames_enclosed, neatNames_separated] using h
    exact (oneLine_intercalate (by decide) (Ty.oneLine_memberTexts (m :: ms) hmembers)).between
      (by decide) (by decide)
  | .union variants =>
    have hvariants := by simpa [Ty.tokens] using h
    exact oneLine_intercalate (by decide) (Ty.oneLine_texts variants hvariants)
  | .literal s => exact oneLine_quote s
  | .array element =>
    have helement : NeatNames spaced element.tokens := by
      rw [Ty.tokens] at h
      split at h <;> simpa using h
    have htext := element.oneLine_text helement
    rw [Ty.text]
    split
    · exact htext.between (by decide) (by decide)
    · exact htext.append (by decide)
  | .raw s => exact (h s (List.mem_singleton_self _)).1

/-- The types of a union or a tuple. -/
theorem Ty.oneLine_texts (types : List Ty)
    (h : ∀ part ∈ Ty.tokenLists types, NeatNames spaced part) :
    ∀ s ∈ Ty.texts types, OneLine s := by
  match types with
  | [] => exact nofun
  | type :: rest =>
    obtain ⟨htype, hrest⟩ := List.forall_mem_cons.1 h
    exact List.forall_mem_cons.2 ⟨type.oneLine_text htype, Ty.oneLine_texts rest hrest⟩

/-- The members of an object type. -/
theorem Ty.oneLine_memberTexts (members : List (Member Ty))
    (h : ∀ part ∈ Ty.memberTokens members, NeatNames spaced part) :
    ∀ s ∈ Ty.memberTexts members, OneLine s := by
  match members with
  | [] => exact nofun
  | ⟨name, isOptional, type⟩ :: rest =>
    obtain ⟨hmember, hrest⟩ := List.forall_mem_cons.1 h
    obtain ⟨hname, htype⟩ := by simpa using hmember
    exact List.forall_mem_cons.2
      ⟨(((hname.1.append (oneLine_optionalMark isOptional)).append (by decide)).append
        (type.oneLine_text htype)), Ty.oneLine_memberTexts rest hrest⟩

end

theorem oneLine_genericsText {generics : List String} (h : ∀ s ∈ generics, OneLine s) :
    OneLine (genericsText generics) := by
  unfold genericsText
  split
  · decide
  · exact (oneLine_intercalate (by decide) h).between (by decide) (by decide)

theorem oneLine_typeArgsText {types : List Ty}
    (h : NeatNames spaced (angled (Ty.tokenLists types))) : OneLine (typeArgsText types) :=
  oneLine_genericsText (Ty.oneLine_texts types (neatNames_angled.1 h))

theorem oneLine_annotationText {type : Option Ty} (h : NeatNames spaced (annotationTokens type)) :
    OneLine <| annotation type := by
  cases type with
  | none => exact nofun
  | some type =>
    have htype := by simpa [annotationTokens] using h
    exact (by decide : OneLine ": ").append (type.oneLine_text htype)

/-- A parameter is not empty if its name is not. -/
theorem Param.isNeat_text {param : Param} (h : NeatNames spaced param.tokens) :
    IsNeat spaced param.text := by
  obtain ⟨hname, htype⟩ := by simpa [Param.tokens] using h
  exact (hname.append (oneLine_optionalMark _)).append (oneLine_annotationText htype)

/-- Parameters between their parentheses, as they are measured. -/
theorem oneLine_paramTexts {params : List Param}
    (h : ∀ param ∈ params, NeatNames spaced param.tokens) :
    OneLine ("(" ++ ", ".intercalate (params.map Param.text) ++ ")") := by
  refine (oneLine_intercalate (by decide) fun s hs => ?_).between (by decide) (by decide)
  obtain ⟨param, hparam, rfl⟩ := List.mem_map.1 hs
  exact (Param.isNeat_text (h param hparam)).1

theorem oneLine_exportMark (isExported : Bool) : OneLine (exportMark isExported) := by
  cases isExported <;> decide

theorem Declarator.isNeat_text {d : Declarator} (h : NeatNames spaced d.tokens) :
    IsNeat spaced d.text := by
  obtain ⟨-, hname, htype⟩ := by simpa [Declarator.tokens] using h
  have hkind : OneLine (if d.isLet then "let " else "const ") := by split <;> decide
  have hfront := ((oneLine_exportMark d.isExported).append hkind).append hname.1
  exact .append_left (hfront.append (oneLine_annotationText htype)) (.fixed (by decide))

end

/-! ## Items -/

/-- The names among tokens. -/
def namesIn (tokens : List Token) : List String := tokens.filterMap Token.name?

/-- The names that an import binds. -/
def Imported.bound : Imported → List String
  | .names bound => bound
  | .default name => [name]

/-- The names in a function: parameters, types and those of the body. -/
def functionNames (params : List Param) (returns : Option Ty) (body : List Stmt) : List String :=
  namesIn (paramsTokens params) ++ namesIn (annotationTokens returns) ++
    namesIn (Stmt.tokensOfBlock body)

/-- The names in a member of a class, its own included. -/
def ClassMember.names : ClassMember → List String
  | .constructor params body => functionNames params none body
  | .method m => m.name :: m.generics ++ functionNames m.params m.returns m.body
  | .property name value => name :: value.names

mutual

/-- The names in an item and the text of a comment; the sources of imports are strings. -/
def Item.names : Item → List String
  | .importDecl decl => decl.imported.bound
  | .reExport _ => []
  | .comment text => [text]
  | .namespaceDecl name items => name :: Item.namesOfAll items
  | .aliasDecl decl => decl.name :: decl.generics ++ namesIn decl.type.tokens
  | .interfaceDecl decl => decl.name :: namesIn (Ty.memberTokens decl.members).flatten
  | .classDecl decl =>
    decl.name :: (decl.parent.elim [] fun type => namesIn type.tokens) ++
      decl.members.flatMap ClassMember.names
  | .variableDecl d value => namesIn d.tokens ++ value.names
  | .functionDecl decl =>
    decl.name :: decl.generics ++ functionNames decl.params decl.returns decl.body

/-- The names in a list of items. -/
def Item.namesOfAll : List Item → List String
  | [] => []
  | i :: rest => i.names ++ Item.namesOfAll rest

end

/-- The names of a tree are its tokens that are names. -/
theorem mem_namesIn_iff {tokens : List Token} {name : String} :
    name ∈ namesIn tokens ↔ Token.name name ∈ tokens := by
  unfold namesIn
  rw [List.mem_filterMap]
  constructor
  · rintro ⟨t, ht, hname⟩
    cases t with
    | name s => exact Option.some.inj hname ▸ ht
    | _ => cases hname
  · exact fun h => ⟨_, h, rfl⟩

/-- Whether the names of a tree are neat can be told from the list of them. -/
theorem neatNames_iff {spaced : Prop} {tokens : List Token} :
    NeatNames spaced tokens ↔ ∀ name ∈ namesIn tokens, IsNeat spaced name := by
  simp only [NeatNames, mem_namesIn_iff]

end TypedBindings.TypeScript
