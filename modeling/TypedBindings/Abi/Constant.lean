import TypedBindings.Json.Reader
import TypedBindings.Text.Blank

/-!
# Constants

The value of a constant or of an enum's member. In a document it is an object with the members
`type` and `value`, in either order; integers are written as decimal strings and may have any
size.

* `Constant.toJson`: the written form.
* `Constant.ofJson`: the reader, which also takes a pair `[type, value]`, integers that are JSON
  numbers, and members with other names.
-/

namespace TypedBindings.Abi

open Json (Fault)

/-- A constant. -/
inductive Constant where
  | bool (value : Bool)
  | u256 (value : Nat)
  | i256 (value : Int)
  | address (text : String)
  | byteVec (text : String)
  | array (items : List Constant)

/-- The kinds of constants, by which their documents are tagged. -/
inductive ConstantKind where
  | bool
  | u256
  | i256
  | address
  | byteVec
  | array
deriving DecidableEq, Repr

namespace ConstantKind

def all : List ConstantKind := [.bool, .u256, .i256, .address, .byteVec, .array]

def tag : ConstantKind → String
  | .bool => "Bool"
  | .u256 => "U256"
  | .i256 => "I256"
  | .address => "Address"
  | .byteVec => "ByteVec"
  | .array => "Array"

def ofJson : Json.Reader ConstantKind
  | .str s =>
    match all.find? fun k => k.tag == s with
    | some k => .ok k
    | none => .error (.unknownVariant s (all.map tag))
  | v => .error v.misshapen

end ConstantKind

namespace Constant

/-- The document of a constant that is given by its tag and content. -/
def tagged (kind : ConstantKind) (content : Json) : Json :=
  .obj [("type", .str kind.tag), ("value", content)]

mutual

/-- The written form of a constant. -/
def toJson : Constant → Json
  | .bool b => tagged .bool (.bool b)
  | .u256 n => tagged .u256 (.str (toString n))
  | .i256 n => tagged .i256 (.str (toString n))
  | .address s => tagged .address (.str s)
  | .byteVec s => tagged .byteVec (.str s)
  | .array items => tagged .array (.arr (toJsonAll items))

def toJsonAll : List Constant → List Json
  | [] => []
  | c :: rest => c.toJson :: toJsonAll rest

end

/-! ## Reading -/

/-- The text of an integer, which is a string or a JSON integer. -/
def integerText (v : Json) : Except Fault String :=
  match v with
  | .str s => .ok s
  | .int n => .ok (toString n)
  | v => .error (if v.isSound then .noVariant "Repr" else .torn)

/-- Reads an integer's text, blanks around it aside. -/
def readInteger {α : Type} (parse : List Char → Except Text.NumberFault α) (v : Json) :
    Except Fault α := do
  let text ← integerText v
  (parse (Text.trim text.toList)).mapError (.invalidInteger text)

/-- What the members read so far have given. -/
inductive Progress where
  | nothing
  | kind (kind : ConstantKind)
  /-- The content came first; it waits for its tag. -/
  | content (read : ConstantKind → Except Fault Constant)
  | whole (constant : Constant)

mutual

/-- Reads a constant. -/
def ofJson : Json → Except Fault Constant
  | .obj members => ofMembers members .nothing
  | .arr [tag] => do
    let _ ← ConstantKind.ofJson tag
    throw .shape
  | .arr (tag :: content :: more) => do
    let kind ← ConstantKind.ofJson tag
    let c ← ofContent content kind
    if more.isEmpty then return c else throw .shape
  | v => .error v.misshapen

/-- Reads the content of a constant whose kind is known. -/
def ofContent : Json → ConstantKind → Except Fault Constant
  | .bool b, .bool => .ok (.bool b)
  | .str s, .address => .ok (.address s)
  | .str s, .byteVec => .ok (.byteVec s)
  | .arr items, .array => (ofItems items).map .array
  | v, .u256 => (readInteger Text.natural v).map .u256
  | v, .i256 => (readInteger Text.integer v).map .i256
  | v, _ => .error v.misshapen

def ofItems : List Json → Except Fault (List Constant)
  | [] => .ok []
  | v :: rest => do
    let c ← ofJson v
    return c :: (← ofItems rest)

/-- Reads the members of a constant's object in their order. -/
def ofMembers : List (String × Json) → Progress → Except Fault Constant
  | [], .whole c => .ok c
  | [], .kind _ => .error (.missingField "value")
  | [], _ => .error (.missingField "type")
  | (name, v) :: rest, progress =>
    if name = "type" then
      match progress with
      | .nothing => do
        let kind ← ConstantKind.ofJson v
        ofMembers rest (.kind kind)
      | .content read => do
        let kind ← ConstantKind.ofJson v
        let c ← read kind
        ofMembers rest (.whole c)
      | _ => .error (.duplicateField "type")
    else if name = "value" then
      match progress with
      | .nothing => if v.isSound then ofMembers rest (.content (ofContent v)) else .error .torn
      | .kind kind => do
        let c ← ofContent v kind
        ofMembers rest (.whole c)
      | _ => .error (.duplicateField "value")
    else if Json.isPassable v then ofMembers rest progress
    else .error .torn

end

end Constant

end TypedBindings.Abi
