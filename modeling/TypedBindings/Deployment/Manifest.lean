import TypedBindings.Deployment.Network
import TypedBindings.Json.Parser
import TypedBindings.Json.Record

/-!
# Deployment manifests

The file that the deploy tool keeps for a network: what each deployer has deployed there, task by
task. Results keep the members that are not their own as metadata.

* `Manifest.ofText`: reads a manifest, a list of deployers' records or one record.
-/

namespace TypedBindings

/-- Where a deployed contract is found. -/
structure InstanceInfo where
  address : String
  contractId : Option String
  groupIndex : Option UInt32

/-- The outcome of deploying a contract. -/
structure ContractResult where
  txId : String
  contractInstance : InstanceInfo
  metadata : List (String × Json)

/-- The outcome of running a script. -/
structure ScriptResult where
  txId : String
  metadata : List (String × Json)

/-- What one deployer has deployed on a network, by task id. -/
structure DeployerRecord where
  deployerAddress : String
  contracts : List (String × ContractResult)
  scripts : List (String × ScriptResult)
  migrations : List (String × Json)

/-- The deployments on a network, and the file that records them. -/
structure Manifest where
  network : Network
  path : String
  records : List DeployerRecord

open Json Json.Record

/-- A document that is kept as it is. -/
def asDocument : Reader Json := fun v => .ok v.merged

/-! ## Reading -/

def InstanceInfo.record : Record InstanceInfo :=
  InstanceInfo.mk <$> required "address" asString <*> optional "contractId" asString <*>
    optional "groupIndex" asUInt32

/-- The members that belong to no field. -/
def metadataOf (names : List String) : Record (List (String × Json)) where
  names := []
  ofMembers := fun members => .ok (others names members)
  ofItems := fun items => .ok ([], items)

def ContractResult.record : Record ContractResult :=
  ContractResult.mk <$> defaulted "txId" asString "" <*>
    required "contractInstance" InstanceInfo.record.read <*>
    metadataOf ["txId", "contractInstance"]

def ScriptResult.record : Record ScriptResult :=
  ScriptResult.mk <$> defaulted "txId" asString "" <*> metadataOf ["txId"]

def DeployerRecord.record : Record DeployerRecord :=
  DeployerRecord.mk <$> required "deployerAddress" asString <*>
    defaulted "contracts" (asMap ContractResult.record.readObject) [] <*>
    defaulted "scripts" (asMap ScriptResult.record.readObject) [] <*>
    defaulted "migrations" (asMap asDocument) []

/-- Reads a list of records, or else one record. -/
def readRecords (v : Json) : Except Fault (List DeployerRecord) :=
  match asList DeployerRecord.record.read v with
  | .ok records => .ok records
  | .error _ =>
    match DeployerRecord.record.read v with
    | .ok r => .ok [r]
    | .error _ => .error (.noVariant "ManifestRepr")

/-- Reads the records that a text holds. -/
def Manifest.ofText (text : String) : Except Fault (List DeployerRecord) :=
  match Json.parse? text depthLimit with
  | some v => readRecords v
  | none => .error .torn

/-! ## Writing -/

def InstanceInfo.toJson (i : InstanceInfo) : Json :=
  .obj ([("address", .str i.address)] ++
    (i.contractId.map fun s => ("contractId", Json.str s)).toList ++
    (i.groupIndex.map fun n => ("groupIndex", Json.int n.toNat)).toList)

def ContractResult.toJson (r : ContractResult) : Json :=
  .obj (("txId", .str r.txId) :: ("contractInstance", r.contractInstance.toJson) :: r.metadata)

def ScriptResult.toJson (r : ScriptResult) : Json := .obj (("txId", .str r.txId) :: r.metadata)

def DeployerRecord.toJson (r : DeployerRecord) : Json :=
  .obj [("deployerAddress", .str r.deployerAddress),
    ("contracts", .obj (r.contracts.map fun (id, c) => (id, c.toJson))),
    ("scripts", .obj (r.scripts.map fun (id, s) => (id, s.toJson))),
    ("migrations", .obj r.migrations)]

end TypedBindings
