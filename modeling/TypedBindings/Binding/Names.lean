/-!
# Names in the bindings
-/

namespace TypedBindings.Binding

/-- The package of the runtime that bindings are written against. -/
def runtimePackage : String := "@alephium/web3"

/-- The package of the deploy tool, which has the types of deployment results. -/
def deployPackage : String := "@alephium/cli"

/-- The namespace of a contract's types. -/
def typesName (contract : String) : String := contract ++ "Types"

/-- The class of a contract's instances. -/
def instanceName (contract : String) : String := contract ++ "Instance"

/-- The type of an event. -/
def eventTypeName (event : String) : String := event ++ "Event"

/-- Where a unit imports an artifact from, given its path in the artifact directory. -/
def artifactSource (path : String) : String := "../" ++ path

/-! ## Names of units -/

def scriptsUnitName : String := "scripts"
def contractsUnitName : String := "contracts"
def utilsUnitName : String := "utils"
def indexUnitName : String := "index"
def deploymentsUnitName : String := "deployments"

end TypedBindings.Binding
