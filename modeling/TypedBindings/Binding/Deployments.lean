import TypedBindings.Binding.Names
import TypedBindings.Deployment.Selection
import TypedBindings.Text.Pieces
import TypedBindings.TypeScript.SourceUnit

/-!
# The unit of the deployments

The `Deployments` type, the function that rebuilds a record of a manifest with typed instances,
and the function that selects a record as `Manifests.load` does. Deployed contracts without a
binding are left out.

* `deploymentsUnit`: the unit.
* `skippedTasks`: the tasks that are left out.
-/

namespace TypedBindings.Binding

open TypeScript

/-- Where the unit imports a network's manifest from. -/
structure ManifestImport where
  network : Network
  source : String
deriving DecidableEq, Repr

/-- The name of an imported manifest. -/
def ManifestImport.binding (i : ManifestImport) : String := i.network.id ++ "Deployments"

/-- Whether a task deploys a contract that has a binding. -/
def isBound (contracts : List String) (taskId : String) : Bool :=
  contracts.contains (TaskId.typeName taskId)

/-- The schema of the tasks that the unit deals with. -/
def boundSchema (m : Manifests) (contracts : List String) : Schema :=
  let schema := m.schema
  { schema with contracts := schema.contracts.retain (isBound contracts) }

/-- The tasks that the unit leaves out. -/
def skippedTasks (m : Manifests) (contracts : List String) : List String :=
  m.schema.contracts.removed (isBound contracts)

/-! ## The type -/

def contractMember (isOptional : Bool) (taskId : String) : Member Ty where
  name := TaskId.variableName taskId
  isOptional
  type := .generic "DeployContractExecutionResult"
    [.named (instanceName (TaskId.typeName taskId))]

def scriptMember (isOptional : Bool) (taskId : String) : Member Ty where
  name := TaskId.variableName taskId
  isOptional
  type := .named "RunScriptResult"

/-- The members of merged ids, the required ones first. -/
def idMembers (member : Bool → String → Member Ty) (ids : MergedIds) : List (Member Ty) :=
  ids.required.map (member false) ++ ids.optional.map (member true)

def deploymentsType (s : Schema) : TypeAlias where
  name := "Deployments"
  type := .object
    ([.plain "deployerAddress" (.named "string"),
        .plain "contracts" (.object (idMembers contractMember s.contracts))] ++
      if s.hasScripts then [.plain "scripts" (.object (idMembers scriptMember s.scripts))] else [])

/-! ## Rebuilding a record -/

/-- The recorded result of a contract's task. -/
def recordedContract (taskId : String) : Expr := .index (.ident "json.contracts") (.str taskId)

/-- The recorded result of a script's task. -/
def recordedScript (taskId : String) : Expr := .index (.ident "json.scripts") (.str taskId)

/-- A recorded result with a typed instance. -/
def rebuiltContract (taskId : String) : Expr :=
  let json := recordedContract taskId
  .object
    [.spread json,
      .field "contractInstance"
        (.callMethod (.ident (TaskId.typeName taskId)) "at"
          [.member (.member json "contractInstance") "address"])]

/-- The rebuilt result of a task that the record may lack. -/
def rebuiltIfPresent (taskId : String) : Expr :=
  .cond (Expr.isUndefined (recordedContract taskId)) .undefined (rebuiltContract taskId)

def rebuiltContracts (ids : MergedIds) : Expr :=
  .record (ids.required.map (fun id => (TaskId.variableName id, rebuiltContract id)) ++
    ids.optional.map fun id => (TaskId.variableName id, rebuiltIfPresent id))

def rebuiltScripts (ids : MergedIds) : Expr :=
  .record (ids.all.map fun id => (TaskId.variableName id, recordedScript id))

def rebuild (s : Schema) : FunctionDecl where
  name := "toDeployments"
  isExported := false
  params := [{ name := "json", type := some (.named "any") }]
  returns := some (.named "Deployments")
  body :=
    [.declare { name := "contracts" } (rebuiltContracts s.contracts),
      .ret (.object
        ([.spread (.ident "json"),
            .field "contracts" (.cast (.ident "contracts") (.raw "Deployments[\"contracts\"]"))] ++
          if s.hasScripts then [.field "scripts" (rebuiltScripts s.scripts)] else []))]

/-! ## Selecting a record -/

/-- The manifest of the wanted network, `undefined` if it has none. -/
def selectedManifest (imports : List ManifestImport) : Expr :=
  imports.foldr (fun i otherwise =>
    .cond (.binary (.ident "networkId") .strictEq (.str i.network.id)) (.ident i.binding)
      otherwise) .undefined

/-- The name that marks where a message names the network. -/
def networkMarker : String := "<network>"

/-- What a fault's message says in front of the network's name, and what it says behind it. -/
def aroundNetwork (fault : String → LoadFault) : String × String :=
  let message := (fault networkMarker).message
  match Text.splitOnce networkMarker.toList message.toList with
  | some (head, tail) => (String.ofList head, String.ofList tail)
  | none => (message, "")

/-- Throws an error with a message. -/
def raiseError (message : Expr) : Stmt := .throw (.callNamed "Error" [message])

/-- Nothing stands behind the network's name in this message. -/
def throwNotDeployed : Stmt :=
  raiseError (.binary (.str (aroundNetwork .notDeployed).1) .add (.ident "networkId"))

def throwAmbiguous : Stmt :=
  let parts := aroundNetwork .ambiguousDeployer
  raiseError (.binary (.binary (.str parts.1) .add (.ident "networkId")) .add (.str parts.2))

/-- This message does not name the network. -/
def throwNotFound : Stmt := raiseError (.str (LoadFault.notFound "" "").message)

/-- Rebuilds a record. -/
def rebuilt (record : Expr) : Expr := .callNamed "toDeployments" [record]

def selection (imports : List ManifestImport) : FunctionDecl where
  name := "loadDeployments"
  params :=
    [{ name := "networkId", type := some (.named "NetworkId") },
      { name := "deployerAddress", isOptional := true, type := some (.named "string") }]
  returns := some (.named "Deployments")
  body :=
    [.declare { name := "deployments" } (selectedManifest imports),
      .branch (Expr.isUndefined (.ident "deployments")) [throwNotDeployed] [],
      .declare { name := "allDeployments" }
        (.cond (.callNamed "Array.isArray" [.ident "deployments"]) (.ident "deployments")
          (.array [.ident "deployments"])),
      .branch (.binary (.ident "allDeployments.length") .strictEq (.num 0)) [throwNotDeployed] [],
      .branch (Expr.isUndefined (.ident "deployerAddress"))
        [.branch (.binary (.ident "allDeployments.length") .greater (.num 1)) [throwAmbiguous]
          [.ret (rebuilt (.index (.ident "allDeployments") (.num 0)))]] [],
      .declare { name := "result" }
        (.callMethod (.ident "allDeployments") "find"
          [.arrow { params := [{ name := "d" }] }
            (.binary (.ident "d.deployerAddress") .strictEq (.ident "deployerAddress"))]),
      .branch (Expr.isUndefined (.ident "result")) [throwNotFound] [],
      .ret (rebuilt (.ident "result"))]

/-! ## The unit -/

/-- The contracts that the tasks of a schema deploy, in order of first use. -/
def usedContracts (s : Schema) : List String := distinct (s.contracts.all.map TaskId.typeName)

def deploymentsUnit (m : Manifests) (imports : List ManifestImport) (contracts : List String) :
    SourceUnit :=
  let schema := boundSchema m contracts
  let used := usedContracts schema
  { name := deploymentsUnitName
    items :=
      [.importDecl ⟨.names ["RunScriptResult", "DeployContractExecutionResult"], deployPackage⟩,
          .importDecl ⟨.names ["NetworkId"], runtimePackage⟩] ++
        (if used.isEmpty then []
          else [.importDecl ⟨.names (used.flatMap fun t => [t, instanceName t]), "."⟩]) ++
        imports.map (fun i => .importDecl ⟨.default i.binding, i.source⟩) ++
        [.aliasDecl (deploymentsType schema), .functionDecl (rebuild schema),
          .functionDecl (selection imports)] }

end TypedBindings.Binding
