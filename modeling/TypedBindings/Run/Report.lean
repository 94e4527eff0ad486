import TypedBindings.Binding.Contract
import TypedBindings.Files.Fault

/-!
# Reports

What a run has written and what it could not generate.
-/

namespace TypedBindings

/-- Why a unit is missing. -/
inductive UnitCause where
  /-- Its artifact cannot be read. -/
  | file (fault : FileFault)
  | binding (fault : Binding.Fault)
deriving DecidableEq, Repr

/-- The message of a cause. -/
def UnitCause.message : UnitCause → String
  | .file fault => fault.message
  | .binding fault => fault.message

/-- A contract or script without a binding, by its name, or by the path of its artifact if that
cannot be read. -/
structure UnitFailure where
  name : String
  cause : UnitCause
deriving DecidableEq, Repr

/-- The message of a failure, with the name of its unit in front. -/
def UnitFailure.message (f : UnitFailure) : String := s!"{f.name}: {f.cause.message}"

/-- What a run reports when it has come to its end. -/
structure Report where
  /-- The files that were written, in their order. -/
  generated : List String := []
  failures : List UnitFailure := []
deriving DecidableEq, Repr

def Report.isSuccess (r : Report) : Bool := r.failures.isEmpty

end TypedBindings
