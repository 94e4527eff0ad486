import TypedBindings.Binding.Allocation
import TypedBindings.Run.Generation

/-!
# Runs on a machine that limits lists

The run of `codegen` with the size of a list's element taken into account. Nothing catches a list
that cannot be allocated: it ends the run where it stands. The bindings of all contracts are made
before the first unit is written, those of the scripts behind the units of the contracts.

* `Binding.builtContract?`: the binding of a contract, if its types can be built.
* `codegenWithin`: the run; it has no report where a list ended it.
-/

namespace TypedBindings

/-- The types that the unit of a contract shows; none if its artifact is not well-formed. -/
def Artifact.Contract.usedTypes (c : Artifact.Contract) : List Abi.ValueType :=
  (c.lower.toOption.map Abi.Contract.usedTypes).getD []

/-- What generating the binding of a contract comes to: a unit or a fault; nothing, if a list of one
of its types cannot be allocated. -/
def Binding.builtContract? (size : Nat) (p : Project) (c : Artifact.Contract) (path : String) :
    Option (Except Binding.Fault TypeScript.SourceUnit) :=
  match bindContract p c path with
  | .error fault => some (.error fault)
  | .ok u => if Binding.canBuild size c.usedTypes then some (.ok u) else none

/-- Whether the binding of an artifact's contract needs a list that cannot be allocated. -/
def exceedsAsContract (size : Nat) (p : Project) (f : FoundArtifact) : Bool :=
  match f.artifact with
  | .script _ => false
  | .contract c => (Binding.builtContract? size p c f.path).isNone

/-- Whether the binding of an artifact's script needs a list that cannot be allocated. -/
def exceedsAsScript (size : Nat) (f : FoundArtifact) : Bool :=
  match f.artifact with
  | .contract _ => false
  | .script s =>
    match bindScript s with
    | .error _ => false
    | .ok abi => !Binding.canBuild size abi.usedTypes

/-- Generates the bindings of every artifact, with lists whose elements have a size. -/
def codegenWithin (size : Nat) (o : RunOptions) : Run (Option Report) := do
  let sources ← Run.find o
  if sources.artifacts.any (exceedsAsContract size sources.project) then return none
  Run.bindArtifacts o sources
  if sources.artifacts.any (exceedsAsScript size) then return none
  return some (← Run.writeShared o sources)

end TypedBindings
