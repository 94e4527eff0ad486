import TypedBindings.Binding.Contract

/-!
# Units shared by every binding

* `utilsUnit`: the lookup of an instance in deployments.
* `contractsUnit`: the lookup of a contract by the hash of its code, release or debug.
* `indexUnit`: re-exports of every contract's unit, by name, and of the scripts.
-/

namespace TypedBindings.Binding

open TypeScript

/-! ## Instances in deployments -/

/-- Returns `undefined` if a variable is. -/
def returnIfUndefined (name : String) : Stmt :=
  .branch (Expr.isUndefined (.ident name)) [.ret .undefined] []

/-- The deployments of the wanted group, or the first ones if no group is wanted. -/
def selectedDeployments : Expr :=
  .cond (Expr.isUndefined (.ident "group"))
    (.index (.ident "allDeployments") (.num 0))
    (.callMethod (.ident "allDeployments") "find"
      [.arrow { params := [{ name := "d" }] }
        (.binary (.callNamed "groupOfAddress" [.ident "d.deployerAddress"]) .strictEq
          (.ident "group"))])

/-- The result of the wanted task, or the one under the contract's name if no task is wanted. -/
def selectedResult : Expr :=
  .cond (Expr.isUndefined (.ident "taskId"))
    (.index (.ident "deployments.contracts") (.ident "contractName"))
    (.index (.ident "deployments.contracts")
      (.callMethod (.ident "taskId") "replace" [.ident "/[:\\-]/g", .str "_"]))

/-- Gives the instance of a deployment in a group under a task's id. -/
def instanceLookup : FunctionDecl where
  name := "loadContractInstanceFromDeployments"
  generics := ["T extends ContractInstance"]
  params :=
    [{ name := "allDeployments", type := some deploymentListType },
      { name := "contractName", type := some (.named "string") },
      { name := "group", isOptional := true, type := some (.named "number") },
      { name := "taskId", isOptional := true, type := some (.named "string") }]
  returns := some (.union [.named "T", .named "undefined"])
  body :=
    [.declare { name := "deployments" } selectedDeployments, returnIfUndefined "deployments",
      .declare { name := "result" } selectedResult, returnIfUndefined "result",
      .ret (.cast (.ident "result.contractInstance") (.named "T"))]

def utilsUnit : SourceUnit where
  name := utilsUnitName
  items :=
    [.importDecl ⟨.names ["ContractInstance", "groupOfAddress"], runtimePackage⟩,
      .importDecl ⟨.names ["DeployContractExecutionResult"], deployPackage⟩,
      .functionDecl instanceLookup]

/-! ## Contracts by code hash -/

/-- Whether a member of the contract `c` is the wanted hash. -/
def hashMatches (member : String) : Expr :=
  .binary (.ident ("c.contract." ++ member)) .strictEq (.ident "codeHash")

def contractByCodeHash (contracts : List String) : FunctionDecl where
  name := "getContractByCodeHash"
  params := [{ name := "codeHash", type := some (.named "string") }]
  returns := some (.named "Contract")
  body :=
    [.branch (Expr.isUndefined (.ident "contracts"))
        [.expr (.binary (.ident "contracts") .assign (.array (contracts.map .ident)))] [],
      .declare { name := "c" }
        (.callMethod (.ident "contracts") "find"
          [.arrow { params := [{ name := "c" }] }
            (.binary (hashMatches "codeHash") .or (hashMatches "codeHashDebug"))]),
      .branch (Expr.isUndefined (.ident "c"))
        [.throw (.construct "Error" []
          [.binary (.str "Unknown code with code hash: ") .add (.ident "codeHash")])] [],
      .ret (.ident "c.contract")]

/-- The unit that lists all contracts. -/
def contractsUnit (contracts : List String) : SourceUnit where
  name := contractsUnitName
  items :=
    [.importDecl ⟨.names ["Contract", "ContractFactory"], runtimePackage⟩] ++
      (if contracts.isEmpty then [] else [.importDecl ⟨.names contracts, "."⟩]) ++
      [.variableDecl
          { name := "contracts"
            isLet := true
            type := some (.union
              [.array (.generic "ContractFactory" [.named "any"]), .named "undefined"]) }
          .undefined,
        .functionDecl (contractByCodeHash contracts)]

/-! ## The index -/

/-- The unit that exports the contracts' units and the scripts. -/
def indexUnit (contracts : List String) : SourceUnit where
  name := indexUnitName
  items :=
    (contracts.mergeSort fun a b => decide (a ≤ b)).map (fun name => .reExport ("./" ++ name)) ++
      [.reExport ("./" ++ scriptsUnitName)]

end TypedBindings.Binding
