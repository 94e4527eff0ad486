import TypedBindings.Text.Number
import TypedBindings.Text.Pieces

/-!
# Types of the ABI and their descriptors

A value type is a scalar or a fixed-size array of value types. A descriptor writes an array as
`[element;length]`, so `[[U256;2];3]` is an array of three arrays of two `U256`. The reader is
looser than the writer: it looks only at the pieces between brackets and semicolons, the first
one a scalar, each later one a length that wraps what came before.

* `ValueType.descriptor`: the written form.
* `ValueType.ofDescriptor`: the reader.
-/

namespace TypedBindings.Abi

/-- The scalar types of the ABI. -/
inductive Scalar where
  | u256
  | i256
  | bool
  | address
  | byteVec
deriving DecidableEq, Repr

def Scalar.name : Scalar → String
  | .u256 => "U256"
  | .i256 => "I256"
  | .bool => "Bool"
  | .address => "Address"
  | .byteVec => "ByteVec"

def Scalar.ofName? (name : List Char) : Option Scalar :=
  [Scalar.u256, .i256, .bool, .address, .byteVec].find? fun s => s.name.toList = name

/-- The length of an array: positive, and a machine word. -/
structure Length where
  val : Nat
  pos : 0 < val
  lt_word : val < Text.wordSize
deriving DecidableEq

instance : Repr Length := ⟨fun l n => reprPrec l.val n⟩

/-- A type of the ABI. -/
inductive ValueType where
  | scalar (kind : Scalar)
  | array (element : ValueType) (length : Length)
deriving DecidableEq, Repr

namespace ValueType

/-- The written form of a type. -/
def descriptor : ValueType → String
  | .scalar kind => kind.name
  | .array element length => s!"[{element.descriptor};{length.val}]"

/-- The scalar at the bottom of an array type. -/
def innermost : ValueType → Scalar
  | .scalar kind => kind
  | .array element _ => element.innermost

/-- The lengths of an array type, the outermost first. -/
def lengths : ValueType → List Length
  | .scalar _ => []
  | .array element length => length :: element.lengths

end ValueType

/-! ## Reading descriptors -/

/-- Why a text is no descriptor. -/
inductive DescriptorFault where
  | empty
  | unknownScalar (token : String)
  | badLength (token : String)
deriving DecidableEq, Repr

def DescriptorFault.message : DescriptorFault → String
  | .empty => "empty type descriptor"
  | .unknownScalar token => s!"unknown type `{token}`"
  | .badLength token => s!"dimension `{token}` is not a positive integer"

/-- A text that was taken for a descriptor, and what is wrong with it. -/
structure MalformedDescriptor where
  descriptor : String
  fault : DescriptorFault
deriving DecidableEq, Repr

def MalformedDescriptor.message (e : MalformedDescriptor) : String :=
  s!"Malformed type descriptor \"{e.descriptor}\": {e.fault.message}."

/-- The characters between the pieces of a descriptor. -/
def isDelimiter (c : Char) : Bool := c == '[' || c == ';' || c == ']'

/-- The pieces of a descriptor that are not empty. -/
def tokens : List Char → List (List Char) := Text.words isDelimiter

/-- The length that a piece stands for. -/
def Length.ofToken? (token : List Char) : Option Length :=
  (Text.count? token).bind fun n =>
    if h : 0 < n ∧ n < Text.wordSize then some ⟨n, h.1, h.2⟩ else none

/-- Wraps a type in the lengths of the pieces, the first one innermost. -/
def wrap (element : ValueType) : List (List Char) → Except DescriptorFault ValueType
  | [] => .ok element
  | token :: rest =>
    match Length.ofToken? token with
    | some length => wrap (.array element length) rest
    | none => .error (.badLength (String.ofList token))

/-- The type that a list of pieces stands for. -/
def ofTokens : List (List Char) → Except DescriptorFault ValueType
  | [] => .error .empty
  | base :: lengths =>
    match Scalar.ofName? base with
    | some kind => wrap (.scalar kind) lengths
    | none => .error (.unknownScalar (String.ofList base))

/-- Reads a descriptor. The name of a scalar is not taken apart. -/
def ValueType.ofDescriptor (text : String) : Except MalformedDescriptor ValueType :=
  match Scalar.ofName? text.toList with
  | some kind => .ok (.scalar kind)
  | none => (ofTokens (tokens text.toList)).mapError fun fault => ⟨text, fault⟩

end TypedBindings.Abi
