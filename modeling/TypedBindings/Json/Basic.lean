import TypedBindings.OrderedMap

/-!
# JSON documents

A document as a tree. Members keep the order of the text and may repeat a name; integers that
fit 64 bits are numbers, every other number keeps its literal. A text that is not JSON still
has a tree, up to the place where it goes wrong: a `defect` stands there, so that a reader
which walks the tree in order meets the first fault of the text first.
-/

namespace TypedBindings

/-- Why a place in a text holds no value. -/
inductive Defect where
  /-- The text stops being JSON here; nothing after this place belongs to the tree. -/
  | grammar
  /-- A value that is JSON but cannot be held: a text with half a surrogate pair, a number
  beyond the doubles, or arrays and objects nested too deeply. -/
  | content
  /-- A member whose name cannot be held. -/
  | name
deriving DecidableEq, Repr

/-- A JSON document. -/
inductive Json where
  | null
  | bool (value : Bool)
  | int (value : Int)
  | real (literal : String)
  | str (text : String)
  | arr (items : List Json)
  | obj (members : List (String × Json))
  | defect (kind : Defect)

namespace Json

mutual

/-- Whether a value can be passed over unread: its text is JSON throughout. -/
def isSkippable : Json → Bool
  | .defect .grammar => false
  | .arr items => areSkippable items
  | .obj members => areMembersSkippable members
  | _ => true

def areSkippable : List Json → Bool
  | [] => true
  | v :: rest => v.isSkippable && areSkippable rest

def areMembersSkippable : List (String × Json) → Bool
  | [] => true
  | (_, v) :: rest => v.isSkippable && areMembersSkippable rest

end

mutual

/-- Whether a value can be read as a whole. -/
def isSound : Json → Bool
  | .defect _ => false
  | .arr items => areSound items
  | .obj members => areMembersSound members
  | _ => true

def areSound : List Json → Bool
  | [] => true
  | v :: rest => v.isSound && areSound rest

def areMembersSound : List (String × Json) → Bool
  | [] => true
  | (_, v) :: rest => v.isSound && areMembersSound rest

end

mutual

/-- The document with one member per name, the last value of a name in its first place. -/
def merged : Json → Json
  | .arr items => .arr (mergedItems items)
  | .obj members => .obj (mergedMembers [] members)
  | v => v

def mergedItems : List Json → List Json
  | [] => []
  | v :: rest => v.merged :: mergedItems rest

def mergedMembers (done : List (String × Json)) : List (String × Json) → List (String × Json)
  | [] => done
  | (k, v) :: rest => mergedMembers (OrderedMap.put k v.merged done) rest

end

/-- The first member of a name. -/
def get? (name : String) : Json → Option Json
  | .obj members => members.lookup name
  | _ => none

end Json

end TypedBindings
