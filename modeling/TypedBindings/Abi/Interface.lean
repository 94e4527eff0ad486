import TypedBindings.Abi.Constant
import TypedBindings.Abi.Descriptor

/-!
# Interfaces of contracts and scripts

What a binding is generated from: fields, events, functions and constants with their types.
-/

namespace TypedBindings.Abi

/-- A field of a contract, or a parameter of a script. -/
structure Field where
  name : String
  type : ValueType
  isMutable : Bool

/-- A parameter of a function, or a field of an event. -/
structure Param where
  name : String
  type : ValueType

structure Function where
  name : String
  isPublic : Bool
  usesPreapprovedAssets : Bool
  usesContractAssets : Bool
  params : List Param
  returns : List ValueType

structure Event where
  name : String
  fields : List Param

/-- A constant with its name, also a member of an enum. -/
structure NamedConstant where
  name : String
  value : Constant

structure Enum where
  name : String
  members : List NamedConstant

structure Contract where
  name : String
  fields : List Field
  events : List Event
  functions : List Function
  constants : List NamedConstant
  enums : List Enum

structure Script where
  name : String
  fields : List Field

/-- The field that the compiler adds to contracts that implement a standard interface. -/
def interfaceIdField : String := "__stdInterfaceId"

/-- Whether users see a field; the interface id is hidden from them. -/
def Field.isUser (f : Field) : Bool := f.name != interfaceIdField

namespace Function

def hasParams (f : Function) : Bool := !f.params.isEmpty

/-- Whether a function can be queried without a transaction. -/
def isCallable (f : Function) : Bool := f.isPublic && !f.returns.isEmpty

end Function

namespace Contract

/-- The fields that users see. -/
def userFields (c : Contract) : List Field := c.fields.filter Field.isUser

def hasUserFields (c : Contract) : Bool := !c.userFields.isEmpty

/-- The functions that can be queried without a transaction. -/
def callable (c : Contract) : List Function := c.functions.filter Function.isCallable

end Contract

/-- The fields that users see. -/
def Script.userFields (s : Script) : List Field := s.fields.filter Field.isUser

end TypedBindings.Abi
