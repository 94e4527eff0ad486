import TypedBindings.TypeScript.Expr

/-!
# Source units

A source unit is the content of one generated file: a list of items, and whether the banner
stands in front of them. Declarations are looked up by name, and the first of a name answers.
-/

namespace TypedBindings.TypeScript

/-- What an import binds. -/
inductive Imported where
  | names (names : List String)
  /-- The default export, under a name. -/
  | default (name : String)

/-- An import of names from one module. -/
structure Import where
  imported : Imported
  source : String

/-- A name for a type, perhaps with type parameters. -/
structure TypeAlias where
  name : String
  isExported : Bool := true
  /-- Type parameters as they are written. -/
  generics : List String := []
  type : Ty

/-- An interface by its members. -/
structure Interface where
  name : String
  isExported : Bool := true
  members : List (Member Ty)

/-- A method of a class. -/
structure Method where
  name : String
  isStatic : Bool := false
  isAsync : Bool := false
  generics : List String := []
  params : List Param
  returns : Option Ty
  body : List Stmt

/-- A member of a class. -/
inductive ClassMember where
  | constructor (params : List Param) (body : List Stmt)
  | method (method : Method)
  | property (name : String) (value : Expr)

/-- A class by its members, which may extend another one. -/
structure ClassDecl where
  name : String
  isExported : Bool := true
  parent : Option Ty := none
  members : List ClassMember

/-- A function at the top level. -/
structure FunctionDecl where
  name : String
  isExported : Bool := true
  generics : List String := []
  params : List Param
  returns : Option Ty := none
  body : List Stmt

/-- An item of a source unit or namespace. -/
inductive Item where
  | importDecl (decl : Import)
  | reExport (source : String)
  | comment (text : String)
  /-- An exported namespace. -/
  | namespaceDecl (name : String) (items : List Item)
  | aliasDecl (decl : TypeAlias)
  | interfaceDecl (decl : Interface)
  | classDecl (decl : ClassDecl)
  | variableDecl (declarator : Declarator) (value : Expr)
  | functionDecl (decl : FunctionDecl)

/-- A file of the output. -/
structure SourceUnit where
  /-- The name of the file, without its extension. -/
  name : String
  /-- Whether the banner for generated files comes first. -/
  hasBanner : Bool := true
  items : List Item

/-! ## Looking things up -/

def ClassMember.name : ClassMember → String
  | .constructor _ _ => "constructor"
  | .method m => m.name
  | .property name _ => name

namespace ClassDecl

/-- The first member of a class under a name. -/
def member? (c : ClassDecl) (name : String) : Option ClassMember :=
  c.members.find? fun m => m.name == name

def hasMember (c : ClassDecl) (name : String) : Bool := (c.member? name).isSome

/-- The keys of a property whose value is an object literal. -/
def propertyKeys (c : ClassDecl) (name : String) : List String :=
  match c.member? name with
  | some (.property _ (.object entries)) => entries.filterMap Entry.key?
  | _ => []

end ClassDecl

/-- The first type alias of a name. -/
def findAlias? (items : List Item) (name : String) : Option TypeAlias :=
  items.findSome? fun
    | .aliasDecl decl => if decl.name = name then some decl else none
    | _ => none

/-- The first interface of a name. -/
def findInterface? (items : List Item) (name : String) : Option Interface :=
  items.findSome? fun
    | .interfaceDecl decl => if decl.name = name then some decl else none
    | _ => none

/-- The names of the types that a list of items declares. -/
def typeNames (items : List Item) : List String :=
  items.filterMap fun
    | .aliasDecl decl => some decl.name
    | .interfaceDecl decl => some decl.name
    | _ => none

namespace SourceUnit

/-- The items of the first namespace of a name. -/
def namespaceDecl? (u : SourceUnit) (name : String) : Option (List Item) :=
  u.items.findSome? fun
    | .namespaceDecl n items => if n = name then some items else none
    | _ => none

/-- The class of a unit under a name. -/
def classDecl? (u : SourceUnit) (name : String) : Option ClassDecl :=
  u.items.findSome? fun
    | .classDecl decl => if decl.name = name then some decl else none
    | _ => none

def functionDecl? (u : SourceUnit) (name : String) : Option FunctionDecl :=
  u.items.findSome? fun
    | .functionDecl decl => if decl.name = name then some decl else none
    | _ => none

def variableDecl? (u : SourceUnit) (name : String) : Option (Declarator × Expr) :=
  u.items.findSome? fun
    | .variableDecl d value => if d.name = name then some (d, value) else none
    | _ => none

def aliasDecl? (u : SourceUnit) (name : String) : Option TypeAlias := findAlias? u.items name

/-- The imports of a unit, in their order. -/
def imports (u : SourceUnit) : List Import :=
  u.items.filterMap fun
    | .importDecl decl => some decl
    | _ => none

/-- The modules that a unit exports again. -/
def reExports (u : SourceUnit) : List String :=
  u.items.filterMap fun
    | .reExport source => some source
    | _ => none

end SourceUnit

end TypedBindings.TypeScript
