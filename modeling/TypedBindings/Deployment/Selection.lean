import TypedBindings.Binding.Names
import TypedBindings.Deployment.Schema

/-!
# Selecting deployments

The manifests of a project's networks, and the choice of one deployer's deployments among them.

* `Manifests.load`: one deployer's deployments on a network. Without a deployer's address the
  network must have exactly one record.
* `Deployments.contract?`: the deployed contract of a task.
-/

namespace TypedBindings

/-- Why no deployments could be chosen. -/
inductive LoadFault where
  | notDeployed (network : String)
  | ambiguousDeployer (network : String)
  | notFound (network deployer : String)
deriving DecidableEq, Repr

/-- What is said about a fault. -/
def LoadFault.message : LoadFault → String
  | .notDeployed network => "The contract has not been deployed to the " ++ network
  | .ambiguousDeployer network =>
    "The contract has been deployed multiple times on " ++ network ++
      ", please specify the deployer address"
  | .notFound _ _ => "The contract deployment result does not exist"

/-- The instance class of a deployed contract, and the contract's address. -/
structure InstanceHandle where
  className : String
  address : String
deriving DecidableEq, Repr

structure DeployedContract where
  taskId : String
  handle : InstanceHandle
  result : ContractResult

/-- One deployer's deployments on a network, by the variable names of their tasks. -/
structure Deployments where
  network : Network
  deployerAddress : String
  contracts : List (String × DeployedContract)
  scripts : List (String × ScriptResult)

def DeployedContract.ofResult (taskId : String) (result : ContractResult) : DeployedContract where
  taskId
  handle := ⟨Binding.instanceName (TaskId.typeName taskId), result.contractInstance.address⟩
  result

namespace Deployments

def ofRecord (network : Network) (r : DeployerRecord) : Deployments where
  network
  deployerAddress := r.deployerAddress
  contracts := OrderedMap.ofList (r.contracts.map fun (id, c) =>
    (TaskId.variableName id, .ofResult id c))
  scripts := OrderedMap.ofList (r.scripts.map fun (id, s) => (TaskId.variableName id, s))

/-- The deployed contract of a task. -/
def contract? (d : Deployments) (taskId : String) : Option DeployedContract :=
  d.contracts.lookup (TaskId.variableName taskId)

end Deployments

/-- The manifests of the networks that have one, in the order in which they were asked for. -/
structure Manifests where
  networks : List Manifest

namespace Manifests

def isEmpty (m : Manifests) : Bool := m.networks.isEmpty

/-- The records of every network. -/
def records (m : Manifests) : List DeployerRecord := m.networks.flatMap Manifest.records

def schema (m : Manifests) : Schema := .ofRecords m.records

/-- The records of a network, taken from its first manifest. -/
def recordsOf (m : Manifests) (network : Network) : List DeployerRecord :=
  ((m.networks.find? fun n => n.network = network).map Manifest.records).getD []

/-- The record that is meant by a network and perhaps a deployer's address. -/
def select (m : Manifests) (network : Network) (deployer : Option String) :
    Except LoadFault DeployerRecord :=
  match m.recordsOf network, deployer with
  | [], _ => .error (.notDeployed network.id)
  | [r], none => .ok r
  | _, none => .error (.ambiguousDeployer network.id)
  | records, some address =>
    match records.find? fun r => r.deployerAddress = address with
    | some r => .ok r
    | none => .error (.notFound network.id address)

/-- One deployer's deployments on a network. -/
def load (m : Manifests) (network : Network) (deployer : Option String) :
    Except LoadFault Deployments :=
  (m.select network deployer).map (Deployments.ofRecord network)

end Manifests

end TypedBindings
