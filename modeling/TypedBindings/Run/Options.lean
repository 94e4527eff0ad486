import TypedBindings.CommandLine
import TypedBindings.Files.Path
import TypedBindings.Settings.Basic

/-!
# Options of a run

Where a run reads and writes. The command line wins over the settings of the project, and paths
are seen from the project's directory.
-/

namespace TypedBindings

structure RunOptions where
  artifactDir : String
  deploymentDir : String
  /-- Whether the deployments unit is written even without a manifest. -/
  wantsDeployments : Bool
  networks : List Network
deriving DecidableEq, Repr

namespace RunOptions

/-- The directory of artifacts if none is named. -/
def standardArtifactDir : String := "artifacts"

/-- The directory for bindings among the artifacts. -/
def outputName : String := "ts"

/-- The networks if none are named. -/
def networksOf (c : Command) (s : Settings) : List Network :=
  if c.networks.isEmpty then s.networks.getD Network.all else c.networks

def resolve (c : Command) (s : Settings) (projectDir : String) : RunOptions :=
  let deploymentDir := c.deploymentDir.or s.deploymentDir
  { artifactDir :=
      Path.join projectDir ((c.artifactDir.or s.artifactDir).getD standardArtifactDir)
    deploymentDir := (deploymentDir.map (Path.join projectDir)).getD projectDir
    wantsDeployments := deploymentDir.isSome
    networks := networksOf c s }

def outputDir (o : RunOptions) : String := Path.join o.artifactDir outputName

end RunOptions

end TypedBindings
