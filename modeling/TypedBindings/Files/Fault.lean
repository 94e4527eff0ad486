import TypedBindings.Json.Reader

/-!
# Faults of files

What a run could not do with a file, and why. The reasons of the operating system and of texts
that are not well-formed are told by their kind alone.
-/

namespace TypedBindings

/-- What a run does with files. -/
inductive FileTask where
  | readSettings
  | parseSettings
  | readProject
  | parseProject
  | readArtifact
  | parseArtifact
  | readManifest
  | parseManifest
  | clear
  | create
  | write
  | resolve
deriving DecidableEq, Repr

/-- The task as a message gives it. -/
def FileTask.text : FileTask → String
  | .readSettings => "read"
  | .parseSettings => "parse"
  | .readProject => "read project artifact"
  | .parseProject => "parse project artifact"
  | .readArtifact => "read artifact"
  | .parseArtifact => "parse artifact"
  | .readManifest => "read deployments"
  | .parseManifest => "parse deployments"
  | .clear => "clear"
  | .create => "create"
  | .write => "write"
  | .resolve => "resolve"

/-- Why a task failed. -/
inductive FileCause where
  | io
  | toml
  | json (fault : Json.Fault)
deriving DecidableEq, Repr

/-- The cause as a message gives it. -/
def FileCause.text : FileCause → String
  | .io => "<io>"
  | .toml => "<toml>"
  | .json fault => fault.message?.getD "<json>"

/-- A task on a path that failed, with its cause. -/
structure FileFault where
  task : FileTask
  path : String
  cause : FileCause
deriving DecidableEq, Repr

/-- The message of a fault. -/
def FileFault.message (f : FileFault) : String :=
  s!"failed to {f.task.text} {f.path}: {f.cause.text}"

end TypedBindings
