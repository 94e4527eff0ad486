import TypedBindings.Artifact.Lowering
import TypedBindings.Binding.Names
import TypedBindings.Binding.Types
import TypedBindings.Project
import TypedBindings.TypeScript.SourceUnit

/-!
# The unit of a contract

A contract's unit has a namespace with its types, a factory with its constants and test stubs, and
a class for its instances with event subscriptions and call stubs. Parts for which the contract
has nothing are left out altogether.

* `contractUnit`: the unit.
* `contractUnit?`: the unit of a contract that the project knows.
-/

namespace TypedBindings.Binding

open Abi TypeScript

/-- Why no binding can be generated. -/
inductive Fault where
  | lowering (cause : Artifact.LoweringFault)
  /-- The project has no facts about the contract's code. -/
  | noMetadata (contract : String)
deriving DecidableEq, Repr

def Fault.message : Fault → String
  | .lowering cause => cause.message
  | .noMetadata contract => s!"Contract info does not exist: {contract}"

/-- The names that a contract's unit takes from the runtime. -/
def contractImports : List String :=
  ["Address", "Contract", "ContractState", "TestContractResult", "HexString", "ContractFactory",
    "EventSubscribeOptions", "EventSubscription", "CallContractParams", "CallContractResult",
    "TestContractParams", "ContractEvent", "subscribeContractEvent", "subscribeContractEvents",
    "testMethod", "callMethod", "multicallMethods", "fetchContractState", "ContractInstance",
    "getContractEventsCurrentCount"]

/-- The name of a contract's imported artifact. -/
def contractJsonName (contract : String) : String := contract ++ "ContractJson"

/-- A type of a contract's namespace. -/
def qualifiedName (c : Contract) (name : String) : String := typesName c.name ++ "." ++ name

def qualified (c : Contract) (name : String) : Ty := .named (qualifiedName c name)

/-- An asynchronous arrow function with a block. -/
def asyncArrow (param : TypeScript.Param) (returns : Ty) (body : List Stmt) : Expr :=
  .arrowBlock { isAsync := true, params := [param], returns := some returns } body

/-- The arguments of a stub: those it is given, or none if it may be called without. -/
def stubArgument (isOptional : Bool) : Expr :=
  if isOptional then
    .cond (Expr.isUndefined (.ident "params")) (.object []) (.ident "params")
  else .ident "params"

/-! ## Types -/

/-- The type of a contract's fields, as the factory knows it. -/
def factoryFields (c : Contract) : Ty :=
  if c.hasUserFields then qualified c "Fields" else .object []

def stateTypes (c : Contract) : List Item :=
  if c.hasUserFields then
    [.aliasDecl { name := "Fields", type := fieldsType c.userFields },
      .aliasDecl { name := "State", type := .generic "ContractState" [.named "Fields"] }]
  else
    [.aliasDecl
      { name := "State"
        type := (Ty.generic "ContractState" [.named "any"]).without ["fields"] }]

/-- The type of an event. -/
def eventType (e : Event) : TypeAlias where
  name := eventTypeName e.name
  type :=
    if e.fields.isEmpty then (Ty.named "ContractEvent").without ["fields"]
    else .generic "ContractEvent" [paramsType e.fields]

/-- The entry of a function in the table of calls. -/
def callEntry (f : Function) : Member Ty :=
  let params :=
    if f.hasParams then .generic "CallContractParams" [paramsType f.params]
    else (Ty.generic "CallContractParams" [.object []]).without ["args"]
  .plain f.name (.object
    [.plain "params" params,
      .plain "result" (.generic "CallContractResult" [returnsType f.returns])])

/-- The table of calls and the types that look into it. -/
def callTypes (callable : List Function) : List Item :=
  [.interfaceDecl { name := "CallMethodTable", members := callable.map callEntry },
    .aliasDecl
      { name := "CallMethodParams"
        generics := ["T extends keyof CallMethodTable"]
        type := .raw "CallMethodTable[T][\"params\"]" },
    .aliasDecl
      { name := "CallMethodResult"
        generics := ["T extends keyof CallMethodTable"]
        type := .raw "CallMethodTable[T][\"result\"]" },
    .aliasDecl
      { name := "MultiCallParams"
        type := .generic "Partial"
          [.raw ("\x7b [Name in keyof CallMethodTable]: " ++
            "CallMethodTable[Name][\"params\"] \x7d")] },
    .aliasDecl
      { name := "MultiCallResults"
        generics := ["T extends MultiCallParams"]
        type := .raw ("\x7b [MaybeName in keyof T]: MaybeName extends keyof CallMethodTable ? " ++
          "CallMethodTable[MaybeName][\"result\"] : undefined \x7d") }]

/-- The items of a contract's namespace. -/
def contractTypes (c : Contract) : List Item :=
  stateTypes c ++ c.events.map (fun e => .aliasDecl (eventType e)) ++
    (if c.callable.isEmpty then [] else callTypes c.callable)

/-! ## The factory -/

/-- Constants, then a table of members for each enum. -/
def constants (c : Contract) : Expr :=
  .record (c.constants.map (fun d => (d.name, literal d.value)) ++
    c.enums.map fun e => (e.name, .record (e.members.map fun m => (m.name, literal m.value))))

/-- Whether a test stub can be called without arguments. -/
def isTestOptional (c : Contract) (f : Function) : Bool := !f.hasParams && !c.hasUserFields

/-- The type of a test stub's parameter. -/
def testParams (c : Contract) (f : Function) : Ty :=
  let fields := if c.hasUserFields then qualified c "Fields" else .named "never"
  let args := if f.hasParams then paramsType f.params else .named "never"
  let params := Ty.generic "TestContractParams" [fields, args]
  match f.hasParams, c.hasUserFields with
  | true, true => params
  | true, false => params.without ["initialFields"]
  | false, true => params.without ["testArgs"]
  | false, false => params.without ["testArgs", "initialFields"]

/-- The stub that tests a function. -/
def testStub (c : Contract) (f : Function) : Expr :=
  let isOptional := isTestOptional c f
  asyncArrow { name := "params", isOptional, type := some (testParams c f) }
    (.promise (.generic "TestContractResult" [returnsType f.returns]))
    [.ret (.callNamed "testMethod" [.ident "this", .str f.name, stubArgument isOptional])]

/-- A property, unless there is nothing in it. -/
def propertyIf (wanted : Bool) (name : String) (value : Expr) : List ClassMember :=
  if wanted then [.property name value] else []

def methodIf (wanted : Bool) (method : Method) : List ClassMember :=
  if wanted then [.method method] else []

def initialFields (c : Contract) : Method where
  name := "getInitialFieldsWithDefaultValues"
  params := []
  returns := some (qualified c "Fields")
  body :=
    [.ret (.cast (.callMethod (.ident "this.contract") "getInitialFieldsWithDefaultValues" [])
      (qualified c "Fields"))]

/-- The indices of a contract's events. -/
def eventIndex (c : Contract) : Expr :=
  .record (c.events.zipIdx.map fun (e, i) => (e.name, .num i))

/-- The method that makes an instance of an address. -/
def atAddress (c : Contract) : Method where
  name := "at"
  params := [{ name := "address", type := some (.named "string") }]
  returns := some (.named (instanceName c.name))
  body := [.ret (.construct (instanceName c.name) [] [.ident "address"])]

def factory (c : Contract) : ClassDecl where
  name := "Factory"
  isExported := false
  parent := some (.generic "ContractFactory" [.named (instanceName c.name), factoryFields c])
  members :=
    methodIf c.hasUserFields (initialFields c) ++
      propertyIf (!c.events.isEmpty) "eventIndex" (eventIndex c) ++
      propertyIf (!c.constants.isEmpty || !c.enums.isEmpty) "consts" (constants c) ++
      [.method (atAddress c)] ++
      propertyIf (!c.functions.isEmpty) "tests"
        (.record (c.functions.map fun f => (f.name, testStub c f)))

/-- The exported factory, made from the artifact and the facts about its debug code. -/
def factoryValue (c : Contract) (info : CodeInfo) : Expr :=
  .construct "Factory" []
    [.callNamed "Contract.fromJson"
      [.ident (contractJsonName c.name), .str info.bytecodeDebugPatch, .str info.codeHashDebug]]

/-! ## Instances -/

/-- The type of the deployments in which an instance is looked up. -/
def deploymentListType : Ty :=
  .array (.object
    [.plain "deployerAddress" (.named "string"),
      .plain "contracts"
        (.generic "Record" [.named "string", .named "DeployContractExecutionResult"])])

/-- The method that picks an instance out of loaded deployments. -/
def inDeployments (c : Contract) : Method where
  name := "in"
  isStatic := true
  params :=
    [{ name := "allDeployments", type := some deploymentListType },
      { name := "group", isOptional := true, type := some (.named "number") },
      { name := "taskId", isOptional := true, type := some (.named "string") }]
  returns := some (.union [.named (instanceName c.name), .named "undefined"])
  body :=
    [.ret (.call (.ident "loadContractInstanceFromDeployments") [.named (instanceName c.name)]
      [.ident "allDeployments", .str c.name, .ident "group", .ident "taskId"])]

def fetchState (c : Contract) : Method where
  name := "fetchState"
  isAsync := true
  params := []
  returns := some (.promise (qualified c "State"))
  body := [.ret (.callNamed "fetchContractState" [.ident c.name, .ident "this"])]

def eventsCount : Method where
  name := "getContractEventsCurrentCount"
  isAsync := true
  params := []
  returns := some (.promise (.named "number"))
  body := [.ret (.callNamed "getContractEventsCurrentCount" [.ident "this.address"])]

/-- The parameters of a subscription to events of a type. -/
def subscriptionParams (event : Ty) : List TypeScript.Param :=
  [{ name := "options", type := some (.generic "EventSubscribeOptions" [event]) },
    { name := "fromCount", isOptional := true, type := some (.named "number") }]

def subscribe (c : Contract) (e : Event) : Method where
  name := "subscribe" ++ eventTypeName e.name
  params := subscriptionParams (qualified c (eventTypeName e.name))
  returns := some (.named "EventSubscription")
  body :=
    [.ret (.callNamed "subscribeContractEvent"
      [.ident (c.name ++ ".contract"), .ident "this", .ident "options", .str e.name,
        .ident "fromCount"])]

def subscribeAll (c : Contract) : Method where
  name := "subscribeAllEvents"
  params :=
    subscriptionParams (.union (c.events.map fun e => qualified c (eventTypeName e.name)))
  returns := some (.named "EventSubscription")
  body :=
    [.ret (.callNamed "subscribeContractEvents"
      [.ident (c.name ++ ".contract"), .ident "this", .ident "options", .ident "fromCount"])]

/-- The stub that calls a function. -/
def callStub (c : Contract) (f : Function) : Expr :=
  let isOptional := !f.hasParams
  let params := Ty.generic (qualifiedName c "CallMethodParams") [.literal f.name]
  asyncArrow { name := "params", isOptional, type := some params }
    (.promise (.generic (qualifiedName c "CallMethodResult") [.literal f.name]))
    [.ret (.callNamed "callMethod"
      [.ident c.name, .ident "this", .str f.name, stubArgument isOptional,
        .ident "getContractByCodeHash"])]

def multicall (c : Contract) : Method :=
  let results := Ty.generic (qualifiedName c "MultiCallResults") [.named "Calls"]
  { name := "multicall"
    isAsync := true
    generics := ["Calls extends " ++ qualifiedName c "MultiCallParams"]
    params := [{ name := "calls", type := some (.named "Calls") }]
    returns := some (.promise results)
    body :=
      [.ret (.cast
        (.paren (.await (.callNamed "multicallMethods"
          [.ident c.name, .ident "this", .ident "calls", .ident "getContractByCodeHash"])))
        results)] }

def instanceClass (c : Contract) : ClassDecl where
  name := instanceName c.name
  parent := some (.named "ContractInstance")
  members :=
    [.constructor [{ name := "address", type := some (.named "Address") }]
        [.expr (.callNamed "super" [.ident "address"])],
      .method (inDeployments c), .method (fetchState c)] ++
      methodIf (!c.events.isEmpty) eventsCount ++
      c.events.map (fun e => .method (subscribe c e)) ++
      methodIf (decide (1 < c.events.length)) (subscribeAll c) ++
      propertyIf (!c.callable.isEmpty) "methods"
        (.record (c.callable.map fun f => (f.name, callStub c f))) ++
      methodIf (!c.callable.isEmpty) (multicall c)

/-! ## The unit -/

/-- The unit of a contract, given the facts about its code and the path of its artifact in the
artifact directory. -/
def contractUnit (c : Contract) (info : CodeInfo) (path : String) : SourceUnit where
  name := c.name
  items :=
    [.importDecl ⟨.names contractImports, runtimePackage⟩,
      .importDecl ⟨.names ["DeployContractExecutionResult"], deployPackage⟩,
      .importDecl ⟨.default (contractJsonName c.name), artifactSource path⟩,
      .importDecl ⟨.names ["getContractByCodeHash"], "./" ++ contractsUnitName⟩,
      .importDecl ⟨.names ["loadContractInstanceFromDeployments"], "./" ++ utilsUnitName⟩,
      .comment "Custom types for the contract",
      .namespaceDecl (typesName c.name) (contractTypes c),
      .classDecl (factory c),
      .comment "Use this object to test and deploy the contract",
      .variableDecl { name := c.name, isExported := true } (factoryValue c info),
      .comment "Use this class to interact with the blockchain",
      .classDecl (instanceClass c)]

/-- The unit of a contract of a project. -/
def contractUnit? (p : Project) (c : Contract) (path : String) : Except Fault SourceUnit :=
  match p.info? c.name with
  | some info => .ok (contractUnit c info path)
  | none => .error (.noMetadata c.name)

end TypedBindings.Binding
