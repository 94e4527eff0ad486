import TypedBindings.TypeScript.Layout
import TypedBindings.TypeScript.SourceUnit

/-!
# Layout of source units

Items are set apart by an empty line, except after a comment, between two imports and between two
re-exports; so are the members of a class.

* `Item.layout`: the layout of an item.
* `Item.write`, `Item.writeAll`: write items.
* `SourceUnit.render`: the text of a unit.
-/

namespace TypedBindings.TypeScript

open Layout

/-! ## Types in declarations -/

mutual

/-- The layout of a type; an object type has a line per member. -/
def Ty.layout : Ty → Layout
  | .object (m :: ms) => block "\x7b" (lines ";" (Ty.memberLayouts (m :: ms))) "\x7d"
  | type => put type.text

/-- The layouts of the members of an object type or interface. -/
def Ty.memberLayouts : List (Member Ty) → List Layout
  | [] => []
  | ⟨name, isOptional, type⟩ :: rest =>
    (put (name ++ Ty.optionalMark isOptional ++ ": ") ++ type.layout) :: Ty.memberLayouts rest

end

/-! ## Declarations -/

def Import.layout (i : Import) : Layout :=
  let source := " from " ++ Text.quote i.source ++ ";"
  match i.imported with
  | .default name => line ("import \x7b default as " ++ name ++ " \x7d" ++ source)
  | .names names =>
    let flat := "import \x7b " ++ ", ".intercalate names ++ " \x7d" ++ source
    if flat.utf8ByteSize ≤ maxWidth then line flat
    else block "import \x7b" (joined (names.map fun name => line (name ++ ","))) ("\x7d" ++ source) ++
      newline

def TypeAlias.layout (a : TypeAlias) : Layout :=
  put (exportMark a.isExported ++ "type " ++ a.name ++ genericsText a.generics ++ " = ") ++
    a.type.layout ++ line ";"

def Interface.layout (i : Interface) : Layout :=
  block (exportMark i.isExported ++ "interface " ++ i.name ++ " \x7b")
    (lines ";" (Ty.memberLayouts i.members)) "\x7d" ++ newline

/-- Parameters, return type and body. -/
def functionLayout (params : List Param) (returns : Option Ty) (body : List Stmt) : Layout :=
  let returns := annotation returns
  paramsLayout params (returns.utf8ByteSize + 2) ++ put returns ++ bracedLayout body

def Method.head (m : Method) : String :=
  (if m.isStatic then "static " else "") ++ (if m.isAsync then "async " else "") ++ m.name ++
    genericsText m.generics

def ClassMember.layout : ClassMember → Layout
  | .constructor params body => put "constructor" ++ functionLayout params none body
  | .method m => put m.head ++ functionLayout m.params m.returns m.body
  | .property name value => put (name ++ " = ") ++ value.layout false ++ line ";"

def ClassDecl.layout (c : ClassDecl) : Layout :=
  let parent := match c.parent with
    | none => ""
    | some type => " extends " ++ type.text
  block (exportMark c.isExported ++ "class " ++ c.name ++ parent ++ " \x7b")
    (setApart (c.members.map ClassMember.layout)) "\x7d" ++ newline

def FunctionDecl.layout (f : FunctionDecl) : Layout :=
  put (exportMark f.isExported ++ "function " ++ f.name ++ genericsText f.generics) ++
    functionLayout f.params f.returns f.body

/-! ## Items -/

/-- Whether an empty line goes between two items. -/
def Item.isSetApart : Item → Item → Bool
  | .comment _, _ => false
  | .importDecl _, .importDecl _ => false
  | .reExport _, .reExport _ => false
  | _, _ => true

/-- The space that goes between an item and the next one. -/
def Item.space (previous : Option Item) (next : Item) : Layout :=
  if previous.any fun i => i.isSetApart next then blankLine else nothing

mutual

/-- The layout of an item, with the end of its last line. -/
def Item.layout : Item → Layout
  | .importDecl decl => decl.layout
  | .reExport source => line ("export * from " ++ Text.quote source ++ ";")
  | .comment text => line ("// " ++ text)
  | .namespaceDecl name items =>
    block ("export namespace " ++ name ++ " \x7b") (Item.layoutOfAll none items) "\x7d" ++ newline
  | .aliasDecl decl => decl.layout
  | .interfaceDecl decl => decl.layout
  | .classDecl decl => decl.layout
  | .variableDecl d value => put d.text ++ value.layout false ++ line ";"
  | .functionDecl decl => decl.layout

/-- The layout of items behind a previous one. -/
def Item.layoutOfAll (previous : Option Item) : List Item → Layout
  | [] => nothing
  | i :: rest => Item.space previous i ++ i.layout ++ Item.layoutOfAll (some i) rest

end

/-- Writes an item, with the end of its last line. -/
def Item.write (i : Item) (p : Printer) : Printer := i.layout.write p

/-- Writes items behind a previous one. -/
def Item.writeAll (previous : Option Item) (items : List Item) (p : Printer) : Printer :=
  (Item.layoutOfAll previous items).write p

/-- The banner of generated files. -/
def banner : List String :=
  ["/* Autogenerated file. Do not edit manually. */", "/* tslint:disable */",
    "/* eslint-disable */"]

/-- The extension of source files. -/
def extension : String := "ts"

namespace SourceUnit

def fileName (u : SourceUnit) : String := u.name ++ "." ++ extension

/-- The layout of a unit. -/
def layout (u : SourceUnit) : Layout :=
  (if u.hasBanner then joined (banner.map line) ++ newline else nothing) ++
    Item.layoutOfAll none u.items

/-- The text of a unit. -/
def render (u : SourceUnit) : String := u.layout.text

end SourceUnit

end TypedBindings.TypeScript
