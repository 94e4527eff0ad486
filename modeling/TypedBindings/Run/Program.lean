import TypedBindings.Log.Console
import TypedBindings.Run.Generation

/-!
# The program

What a command line does as a whole: exit status, output and files.

* `Program.run`: the program on a tree.
* `Program.settingsPath`, `Program.inputs`: the paths that it looks at.
-/

namespace TypedBindings.Program

/-- What the program leaves behind. -/
structure Result where
  exit : Nat
  streams : Log.Streams
  tree : FileTree

def name : String := "abigen"

def version : String := "0.4.0"

/-- What is printed when the version is asked for. -/
def versionText : String := name ++ " " ++ version ++ "\n"

/-- How the program is called. -/
def usageText : String :=
  "Usage: " ++ name ++ " [OPTIONS]\n\n" ++
    "Options:\n" ++
    "  -p, --path <PATH>\n" ++
    "      --artifact-dir <ARTIFACT_DIR>\n" ++
    "      --deployment-dir <DEPLOYMENT_DIR>\n" ++
    "      --networks <NETWORKS>\n" ++
    "  -v, --verbose...\n" ++
    "  -s, --silent\n" ++
    "      --log-level <LOG_LEVEL>\n" ++
    "  -h, --help\n" ++
    "  -V, --version\n"

/-! ## The environment -/

def projectVariable : String := "ABIGEN_PROJECT_DIR"
def artifactVariable : String := "ABIGEN_ARTIFACT_DIR"
def deploymentVariable : String := "ABIGEN_DEPLOYMENT_DIR"

/-- The variable that holds a filter for the log. -/
def filterVariable : String := "RUST_LOG"

/-- The environment, given the values of its variables. -/
def environmentOf (value? : String → Option String) : Environment where
  projectDir := value? projectVariable
  artifactDir := value? artifactVariable
  deploymentDir := value? deploymentVariable

/-! ## What the program looks at -/

/-- The path of the settings. -/
def settingsPath (c : Command) (t : FileTree) : String :=
  Path.join (c.projectDir t) Settings.fileName

/-- The directory of artifacts and the paths of the manifests, given a tree with the settings. -/
def inputs (c : Command) (t : FileTree) : List String :=
  match Settings.ofDir t (c.projectDir t) with
  | .error _ => []
  | .ok settings =>
    let o := RunOptions.resolve c settings (c.projectDir t)
    o.artifactDir :: o.networks.map fun n => n.manifestPath o.deploymentDir

/-! ## Running -/

/-- The lines with which a run ends, and the exit status. -/
def ending : Except FileFault Report → List Log.Event × Nat
  | .ok r => (r.failures.map fun f => Log.error f.message, if r.isSuccess then 0 else 1)
  | .error f => ([Log.error f.message], 1)

/-- The program, given its arguments, environment, filter variable and files. -/
def run (args : List String) (environment : Environment) (filter : Option String)
    (t : FileTree) : Result :=
  match Command.parse args environment with
  | .error .displayVersion => ⟨0, { output := versionText }, t⟩
  | .error .displayHelp => ⟨0, { output := usageText }, t⟩
  | .error _ => ⟨2, { error := usageText }, t⟩
  | .ok c =>
    let o := (runCommand c).outcome t
    let (last, exit) := ending o.result
    ⟨exit, .ofEvents (.choose c.logOptions.wanted? filter) .split (o.log ++ last), o.tree⟩

end TypedBindings.Program
