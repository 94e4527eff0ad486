/-!
# Networks

The networks that a project can be deployed to, and the names that task ids give rise to.
-/

namespace TypedBindings

inductive Network where
  | mainnet
  | testnet
  | devnet
deriving DecidableEq, Repr

namespace Network

/-- Every network, the primary one first. -/
def all : List Network := [.mainnet, .testnet, .devnet]

def id : Network → String
  | .mainnet => "mainnet"
  | .testnet => "testnet"
  | .devnet => "devnet"

def ofId? (s : String) : Option Network := all.find? fun n => n.id == s

/-- What is said about a text that names no network. -/
def unknownMessage (s : String) : String :=
  let listed := ", ".intercalate (all.map fun n => "'" ++ n.id ++ "'")
  s!"'{s}' is not a valid network id. Possible values: {listed}"

/-- The name of the file that records a network's deployments. -/
def manifestName (n : Network) : String := ".deployments." ++ n.id ++ ".json"

end Network

/-! ## Task ids

A task id is the name of a contract or script, or that name, a colon and a tag. -/

namespace TaskId

/-- The identifier of a task: colons and hyphens become underscores. -/
def variableName (taskId : String) : String :=
  String.ofList (taskId.toList.map fun c => if c = ':' ∨ c = '-' then '_' else c)

/-- The contract or script of a task: what stands in front of the first colon. -/
def typeName (taskId : String) : String := String.ofList (taskId.toList.takeWhile (· ≠ ':'))

end TaskId

end TypedBindings
