import TypedBindings.Json.Basic
import TypedBindings.Text.Number

/-!
# Reading values out of documents

A `Reader` takes a value out of a document or says what is wrong with the document. Readers for
the plain shapes stand here, those for records with named fields in `Json.Record`.
-/

namespace TypedBindings.Json

/-- What is wrong with a document. -/
inductive Fault where
  /-- The text is not JSON, or holds a value that cannot be held. -/
  | torn
  /-- A value has the wrong shape. -/
  | shape
  | missingField (name : String)
  | duplicateField (name : String)
  | unknownVariant (tag : String) (known : List String)
  | invalidInteger (text : String) (cause : Text.NumberFault)
  /-- A value has none of the shapes that a choice offers. -/
  | noVariant (choice : String)
deriving DecidableEq, Repr

/-- The text of a fault, for the faults that have one. -/
def Fault.message? : Fault → Option String
  | .torn => none
  | .shape => none
  | .missingField name => some s!"missing field `{name}`"
  | .duplicateField name => some s!"duplicate field `{name}`"
  | .unknownVariant tag known =>
    let listed := ", ".intercalate (known.map fun k => "`" ++ k ++ "`")
    some s!"unknown variant `{tag}`, expected one of {listed}"
  | .invalidInteger text cause => some s!"invalid integer `{text}`: {cause.message}"
  | .noVariant choice => some s!"data did not match any variant of untagged enum {choice}"

/-- Takes a value out of a document. -/
abbrev Reader (α : Type) := Json → Except Fault α

/-- Whether a member that no reader asks for can be passed over. -/
def isPassable : Json → Bool
  | .defect .name => false
  | v => v.isSkippable

/-- The fault of a value that is not of the wanted shape. -/
def misshapen : Json → Fault
  | .defect _ => .torn
  | _ => .shape

def asString : Reader String
  | .str s => .ok s
  | v => .error v.misshapen

def asBool : Reader Bool
  | .bool b => .ok b
  | v => .error v.misshapen

/-- An unsigned integer of 32 bits. -/
def asUInt32 : Reader UInt32
  | .int n =>
    if 0 ≤ n ∧ n.toNat < UInt32.size then .ok (UInt32.ofNat n.toNat) else .error .shape
  | v => .error v.misshapen

def asList {α : Type} (item : Reader α) : Reader (List α)
  | .arr items => items.mapM item
  | v => .error v.misshapen

/-- A value that may be `null`. -/
def asOption {α : Type} (item : Reader α) : Reader (Option α)
  | .null => .ok none
  | v => (item v).map some

/-- An object as a finite map: the last value of a name counts, in the place of the first. -/
def asMap {α : Type} (item : Reader α) : Reader (List (String × α))
  | .obj members =>
    members.foldlM (fun done (k, v) => (item v).map fun x => OrderedMap.put k x done) []
  | v => .error v.misshapen

/-- Reads the document that a text holds. The reader meets the faults of the text in their order,
and what follows the document is looked at last. -/
def readWhole {α : Type} (reader : Reader α) (document : Json × Bool) : Except Fault α := do
  let value ← reader document.1
  if document.2 then return value else throw .torn

end TypedBindings.Json
