import TypedBindings.TypeScript.Expr
import TypedBindings.TypeScript.Printer

/-!
# Layout of expressions and statements

Argument lists, arrays, conditionals, `+` chains and parameter lists stand on one line if they
fit, and one part per line otherwise. What a part would take is measured by its text on an empty
page, in bytes.

* `Expr.layout`, `Stmt.layout`: the layouts.
* `Expr.write`: writes an expression.
* `Expr.text`: an expression on its own.
-/

namespace TypedBindings.TypeScript

open Layout

/-! ## Types and parameters -/

/-- The type parameters of a declaration, as they are written. -/
def genericsText (generics : List String) : String :=
  if generics.isEmpty then "" else "<" ++ ", ".intercalate generics ++ ">"

/-- The type arguments of a call. -/
def typeArgsText (args : List Ty) : String := genericsText (Ty.texts args)

/-- The type behind a declared name or a parameter list. -/
def annotation : Option Ty → String
  | none => ""
  | some type => ": " ++ type.text

def Param.text (p : Param) : String := p.name ++ Ty.optionalMark p.isOptional ++ annotation p.type

/-- Parameters behind which `tail` more bytes have to fit. -/
def paramsLayout (params : List Param) (tail : Nat) : Layout :=
  let flat := "(" ++ ", ".intercalate (params.map Param.text) ++ ")"
  if params.isEmpty then put flat
  else fitting true flat tail nothing
    (block "(" (stacked (params.map fun param => put param.text)) ")")

def exportMark (isExported : Bool) : String := if isExported then "export " else ""

/-- The declaration of a variable up to its value. -/
def Declarator.text (d : Declarator) : String :=
  exportMark d.isExported ++ (if d.isLet then "let " else "const ") ++ d.name ++
    annotation d.type ++ " = "

/-- An arrow function up to its body. -/
def ArrowHead.layout (head : ArrowHead) : Layout :=
  let returns := annotation head.returns
  (if head.isAsync then put "async " else nothing) ++
    paramsLayout head.params (returns.utf8ByteSize + 5) ++ put returns ++ put " => "

/-! ## Lists of expressions -/

/-- Whether an argument can open on the line of its call when it is the last one. -/
def Expr.isHuggable : Expr → Bool
  | .object entries => !entries.isEmpty
  | .arrowBlock _ _ => true
  | _ => false

/-- Whether an expression needs parentheses in front of a suffix. -/
def Expr.bindsLoosely : Expr → Bool
  | .await _ | .cast _ _ | .cond _ _ _ | .binary _ _ _ | .arrow _ _ | .arrowBlock _ _ => true
  | _ => false

def Expr.isObject : Expr → Bool
  | .object _ => true
  | _ => false

/-- Something in parentheses, if wanted. -/
def parenthesized (wanted : Bool) (body : Layout) : Layout :=
  if wanted then put "(" ++ body ++ put ")" else body

/-- Text on one line, with so many bytes behind it, if it is one line and fits. -/
def flatOr (flat : String) (tail : Nat) (tall : Layout) : Layout :=
  fitting (isOneLine flat) flat tail nothing tall

/-- An array: on the line, or one element per line. -/
def arrayLayout (elements : List Layout) : Layout :=
  flatOr ("[" ++ ", ".intercalate (elements.map text) ++ "]") 1 (block "[" (lines "," elements) "]")

/-- What stands on the line of a call in front of the argument that opens there. -/
def huggedText (front : List String) : String := front.foldl (fun t s => t ++ s ++ ", ") "("

/-- Arguments: all on the line, or the last one opening on the line if it `hugs`, or one per
line. -/
def argsLayout (args : List Layout) (hugs : Bool) : Layout :=
  let texts := args.map text
  let front := texts.dropLast
  flatOr ("(" ++ ", ".intercalate texts ++ ")") 1
    (fitting (hugs && front.all isOneLine) (huggedText front) 2
      (args.getLast?.getD nothing ++ put ")") (block "(" (stacked args) ")"))

/-- A conditional on one line. -/
def condLine (test yes no : Layout) : Layout := test ++ put " ? " ++ yes ++ put " : " ++ no

/-- A conditional: on the line, or each choice on a line of its own. -/
def condLayout (test yes no : Layout) : Layout :=
  flatOr (condLine test yes no).text 1
    (test ++ newline ++ indented (put "? " ++ yes ++ newline ++ put ": " ++ no))

/-! ## Expressions and statements -/

mutual

/-- The layout of an expression. In a `broken` chain of `+`, every operand but the first has a line
of its own; other expressions take no notice. -/
def Expr.layout : Expr → (broken : Bool) → Layout
  | .ident path, _ => put path
  | .str s, _ => put (Text.quote s)
  | .bigInt digits, _ => put ("BigInt(" ++ Text.quote digits ++ ")")
  | .bool b, _ => put (if b then "true" else "false")
  | .num n, _ => put (toString n)
  | .undefined, _ => put "undefined"
  | .array elements, _ => arrayLayout (Expr.layouts elements)
  | .object [], _ => put "\x7b\x7d"
  | .object (e :: es), _ => block "\x7b" (lines "," (Expr.entryLayouts (e :: es))) "\x7d"
  | .call callee typeArgs args, _ =>
    parenthesized callee.bindsLoosely (callee.layout false) ++ put (typeArgsText typeArgs) ++
      argsLayout (Expr.layouts args) (args.getLast?.any Expr.isHuggable)
  | .construct className typeArgs args, _ =>
    put ("new " ++ className ++ typeArgsText typeArgs) ++
      argsLayout (Expr.layouts args) (args.getLast?.any Expr.isHuggable)
  | .member target name, _ =>
    parenthesized target.bindsLoosely (target.layout false) ++ put ("." ++ name)
  | .index target key, _ =>
    parenthesized target.bindsLoosely (target.layout false) ++ put "[" ++ key.layout false ++
      put "]"
  | .arrow head body, _ => head.layout ++ parenthesized body.isObject (body.layout false)
  | .arrowBlock head body, _ => head.layout ++ block "\x7b" (joined (Stmt.layouts body)) "\x7d"
  | .await value, _ => put "await " ++ value.layout false
  | .cast value type, _ => value.layout false ++ put (" as " ++ type.text)
  | .cond test yes no, _ => condLayout (test.layout false) (yes.layout false) (no.layout false)
  -- A chain leans to the left, so its operands are the right sides and one last left side.
  | .binary left .add right, true => left.layout true ++ indented (line " +" ++ right.layout false)
  | .binary left .add right, false =>
    flatOr ((left.layout false).text ++ " + " ++ (right.layout false).text) 2
      (left.layout true ++ indented (line " +" ++ right.layout false))
  | .binary left op right, _ =>
    left.layout false ++ put (" " ++ op.text ++ " ") ++ right.layout false
  | .paren inner, _ => put "(" ++ inner.layout false ++ put ")"

/-- The layouts of expressions on their own. -/
def Expr.layouts : List Expr → List Layout
  | [] => []
  | e :: rest => e.layout false :: Expr.layouts rest

/-- The layouts of the entries of an object. -/
def Expr.entryLayouts : List (Entry Expr) → List Layout
  | [] => []
  | .field key value :: rest => (put (key ++ ": ") ++ value.layout false) :: Expr.entryLayouts rest
  | .spread value :: rest => (put "..." ++ value.layout false) :: Expr.entryLayouts rest

/-- The layout of a statement, with the end of its line. -/
def Stmt.layout : Stmt → Layout
  | .ret value => put "return " ++ value.layout false ++ line ";"
  | .expr value => value.layout false ++ line ";"
  | .declare d value => put d.text ++ value.layout false ++ line ";"
  | .branch test yes no =>
    put "if (" ++ test.layout false ++ line ") \x7b" ++ indented (joined (Stmt.layouts yes)) ++
      (if no.isEmpty then nothing
        else line "\x7d else \x7b" ++ indented (joined (Stmt.layouts no))) ++
      line "\x7d"
  | .throw value => put "throw " ++ value.layout false ++ line ";"

def Stmt.layouts : List Stmt → List Layout
  | [] => []
  | s :: rest => s.layout :: Stmt.layouts rest

end

/-- Writes an expression. -/
def Expr.write (e : Expr) (broken : Bool) (p : Printer) : Printer := (e.layout broken).write p

/-- The text of an expression on its own. -/
def Expr.text (e : Expr) : String := (e.layout false).text

/-- Statements in braces, with the end of the line. -/
def bracedLayout (body : List Stmt) : Layout :=
  block " \x7b" (joined (Stmt.layouts body)) "\x7d" ++ newline

end TypedBindings.TypeScript
