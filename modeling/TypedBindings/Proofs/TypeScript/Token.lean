import TypedBindings.TypeScript.Layout

/-!
# Tokens

The tokens of types, expressions and statements, read off their trees. They know nothing of a
layout: neither blanks nor lines, nor the extra comma that closes an array with a line per element.

* `Token`: a token, and `Token.text` its characters.
* `Ty.tokens`, `Expr.tokens`, `Stmt.tokens`: the tokens of a tree, in their order.
* `Expr.names`: the names in an expression.
-/

namespace TypedBindings.TypeScript

/-- A word behind which a line must not end: the language would take what follows for something of
its own. -/
inductive LeadWord where
  | ret
  | throw
  | await
  | async
  | new
deriving DecidableEq, Repr

def LeadWord.text : LeadWord → String
  | .ret => "return"
  | .throw => "throw"
  | .await => "await"
  | .async => "async"
  | .new => "new"

/-- A fixed part of the language behind which a line may end. -/
inductive Mark where
  | openParen
  | closeParen
  | openBracket
  | closeBracket
  | openBrace
  | closeBrace
  | openAngle
  | closeAngle
  | comma
  | semicolon
  | colon
  | question
  | dot
  | spread
  | bar
  | arrow
  | operator (op : Operator)
  | asWord
  | ifWord
  | elseWord
  | constWord
  | letWord
  | exportWord
  | bool (value : Bool)
  | undefined
deriving DecidableEq, Repr

def Mark.text : Mark → String
  | .openParen => "("
  | .closeParen => ")"
  | .openBracket => "["
  | .closeBracket => "]"
  | .openBrace => "\x7b"
  | .closeBrace => "\x7d"
  | .openAngle => "<"
  | .closeAngle => ">"
  | .comma => ","
  | .semicolon => ";"
  | .colon => ":"
  | .question => "?"
  | .dot => "."
  | .spread => "..."
  | .bar => "|"
  | .arrow => "=>"
  | .operator op => op.text
  | .asWord => "as"
  | .ifWord => "if"
  | .elseWord => "else"
  | .constWord => "const"
  | .letWord => "let"
  | .exportWord => "export"
  | .bool b => if b then "true" else "false"
  | .undefined => "undefined"

inductive Token where
  | lead (word : LeadWord)
  | mark (m : Mark)
  /-- A name that the tree gives, which may be a path of names. -/
  | name (text : String)
  /-- A string, by what it stands for. -/
  | literal (text : String)
  /-- A big integer, by its digits. -/
  | bigInt (digits : String)
  | number (value : Int)
deriving DecidableEq, Repr

/-- The characters of a token. -/
def Token.text : Token → String
  | .lead word => word.text
  | .mark m => m.text
  | .name s => s
  | .literal s => Text.quote s
  | .bigInt digits => "BigInt(" ++ Text.quote digits ++ ")"
  | .number n => toString n

/-- The name that a token is. -/
def Token.name? : Token → Option String
  | .name s => some s
  | _ => none

/-- Parts with a mark between them. -/
def separated (m : Mark) (parts : List (List Token)) : List Token :=
  [Token.mark m].intercalate parts

/-- Parts with a comma behind each but the last. -/
def listed (parts : List (List Token)) : List Token := separated .comma parts

/-- Something between two marks. -/
def enclosed (first last : Mark) (tokens : List Token) : List Token :=
  .mark first :: tokens ++ [.mark last]

/-! ## Types and parameters -/

def questionTokens (isOptional : Bool) : List Token := if isOptional then [.mark .question] else []

mutual

/-- The tokens of a type. -/
def Ty.tokens : Ty → List Token
  | .named name => [.name name]
  | .generic name args =>
    .name name :: enclosed .openAngle .closeAngle (listed (Ty.tokenLists args))
  | .tuple elements => enclosed .openBracket .closeBracket (listed (Ty.tokenLists elements))
  | .object members =>
    enclosed .openBrace .closeBrace (separated .semicolon (Ty.memberTokens members))
  | .union variants => separated .bar (Ty.tokenLists variants)
  | .literal s => [.literal s]
  | .array element =>
    (if element.isUnion then enclosed .openParen .closeParen element.tokens
      else element.tokens) ++ enclosed .openBracket .closeBracket []
  | .raw s => [.name s]

def Ty.tokenLists : List Ty → List (List Token)
  | [] => []
  | t :: rest => t.tokens :: Ty.tokenLists rest

def Ty.memberTokens : List (Member Ty) → List (List Token)
  | [] => []
  | ⟨name, isOptional, type⟩ :: rest =>
    (.name name :: questionTokens isOptional ++ .mark .colon :: type.tokens) ::
      Ty.memberTokens rest

end

/-- Type parameters or arguments, if there are any. -/
def angled (parts : List (List Token)) : List Token :=
  if parts.isEmpty then [] else enclosed .openAngle .closeAngle (listed parts)

def annotationTokens : Option Ty → List Token
  | none => []
  | some type => .mark .colon :: type.tokens

def Param.tokens (p : Param) : List Token :=
  .name p.name :: questionTokens p.isOptional ++ annotationTokens p.type

def paramsTokens (params : List Param) : List Token :=
  enclosed .openParen .closeParen (listed (params.map Param.tokens))

/-- The tokens of a variable's declaration in front of its value. -/
def Declarator.tokens (d : Declarator) : List Token :=
  (if d.isExported then [.mark .exportWord] else []) ++
    .mark (if d.isLet then .letWord else .constWord) :: .name d.name ::
      annotationTokens d.type ++ [.mark (.operator .assign)]

def ArrowHead.tokens (head : ArrowHead) : List Token :=
  (if head.isAsync then [.lead .async] else []) ++ paramsTokens head.params ++
    annotationTokens head.returns ++ [.mark .arrow]

/-! ## Expressions and statements -/

/-- Something in parentheses, if wanted. -/
def grouped (wanted : Bool) (tokens : List Token) : List Token :=
  if wanted then enclosed .openParen .closeParen tokens else tokens

/-- The tokens of an argument list. -/
def argsTokens (args : List (List Token)) : List Token :=
  enclosed .openParen .closeParen (listed args)

mutual

/-- The tokens of an expression. -/
def Expr.tokens : Expr → List Token
  | .ident path => [.name path]
  | .str s => [.literal s]
  | .bigInt digits => [.bigInt digits]
  | .bool b => [.mark (.bool b)]
  | .num n => [.number n]
  | .undefined => [.mark .undefined]
  | .array elements => enclosed .openBracket .closeBracket (listed (Expr.tokenLists elements))
  | .object entries => enclosed .openBrace .closeBrace (Expr.entryTokens entries)
  | .call callee typeArgs args =>
    grouped callee.bindsLoosely callee.tokens ++ angled (Ty.tokenLists typeArgs) ++
      argsTokens (Expr.tokenLists args)
  | .construct className typeArgs args =>
    .lead .new :: .name className :: angled (Ty.tokenLists typeArgs) ++
      argsTokens (Expr.tokenLists args)
  | .member target name =>
    grouped target.bindsLoosely target.tokens ++ [.mark .dot, .name name]
  | .index target key =>
    grouped target.bindsLoosely target.tokens ++ enclosed .openBracket .closeBracket key.tokens
  | .arrow head body => head.tokens ++ grouped body.isObject body.tokens
  | .arrowBlock head body =>
    head.tokens ++ enclosed .openBrace .closeBrace (Stmt.tokensOfBlock body)
  | .await value => .lead .await :: value.tokens
  | .cast value type => value.tokens ++ .mark .asWord :: type.tokens
  | .cond test yes no =>
    test.tokens ++ .mark .question :: yes.tokens ++ .mark .colon :: no.tokens
  | .binary left op right => left.tokens ++ .mark (.operator op) :: right.tokens
  | .paren inner => enclosed .openParen .closeParen inner.tokens

def Expr.tokenLists : List Expr → List (List Token)
  | [] => []
  | e :: rest => e.tokens :: Expr.tokenLists rest

/-- The tokens of the entries of an object, a comma behind each. -/
def Expr.entryTokens : List (Entry Expr) → List Token
  | [] => []
  | .field key value :: rest =>
    .name key :: .mark .colon :: value.tokens ++ .mark .comma :: Expr.entryTokens rest
  | .spread value :: rest =>
    .mark .spread :: value.tokens ++ .mark .comma :: Expr.entryTokens rest

/-- The tokens of a statement. -/
def Stmt.tokens : Stmt → List Token
  | .ret value => .lead .ret :: value.tokens ++ [.mark .semicolon]
  | .expr value => value.tokens ++ [.mark .semicolon]
  | .declare d value => d.tokens ++ value.tokens ++ [.mark .semicolon]
  | .branch test yes no =>
    .mark .ifWord :: enclosed .openParen .closeParen test.tokens ++
      enclosed .openBrace .closeBrace (Stmt.tokensOfBlock yes) ++
      if no.isEmpty then []
      else .mark .elseWord :: enclosed .openBrace .closeBrace (Stmt.tokensOfBlock no)
  | .throw value => .lead .throw :: value.tokens ++ [.mark .semicolon]

def Stmt.tokensOfBlock : List Stmt → List Token
  | [] => []
  | s :: rest => s.tokens ++ Stmt.tokensOfBlock rest

end

/-- The names in an expression: identifiers, keys, members, classes, parameters, variables and
types. -/
def Expr.names (e : Expr) : List String := e.tokens.filterMap Token.name?

end TypedBindings.TypeScript
