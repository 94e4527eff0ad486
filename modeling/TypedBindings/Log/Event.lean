import TypedBindings.Log.Level

/-!
# Log events

What a run says about itself. An event comes from one of three parts of the program, and most
carry a coloured label.
-/

namespace TypedBindings.Log

/-- The part of the program that an event comes from. -/
inductive Source where
  /-- Lines for the user. -/
  | console
  /-- The run as such. -/
  | run
  /-- The reader of deployment manifests. -/
  | manifests
deriving DecidableEq, Repr

/-- The path by which filters know a part of the program. -/
def Source.path : Source → String
  | .console => "abigen_tracing"
  | .run => "abigen::op"
  | .manifests => "abigen::deployments::loader"

structure Event where
  level : Level
  source : Source
  message : String
deriving DecidableEq, Repr

/-! ## Lines for the user -/

/-- Sets text in a terminal colour. -/
def painted (code : String) (s : String) : String := "\x1b[" ++ code ++ "m" ++ s ++ "\x1b[0m"

/-- The width of the column of actions. -/
def actionWidth : Nat := 12

/-- Text moved to the right edge of a column. -/
def padLeft (width : Nat) (s : String) : String :=
  String.ofList (List.replicate (width - s.length) ' ') ++ s

/-- An action and what it is about. -/
def actionLine (colour action subject : String) : String :=
  painted colour (padLeft actionWidth action) ++ " " ++ subject

def success (action subject : String) : Event :=
  ⟨.info, .console, actionLine "1;32" action subject⟩

def failure (action subject : String) : Event :=
  ⟨.info, .console, actionLine "1;31" action subject⟩

def warning (message : String) : Event :=
  ⟨.warn, .console, painted "33" "warning" ++ ": " ++ message⟩

def error (message : String) : Event :=
  ⟨.error, .console, painted "31" "error" ++ ": " ++ message⟩

end TypedBindings.Log
