import TypedBindings.Deployment.Network
import TypedBindings.Log.Level
import TypedBindings.Text.Pieces

/-!
# The command line

Options come as `--name value`, `--name=value`, `-nvalue` or `-n=value`, and short flags can be
bundled. The value of an option is looked at when the next option comes or the line ends, so that
an argument that is not known is refused before a bad value in front of it.

* `Command.parse`: reads a command line; the environment stands in for options that are missing.
-/

namespace TypedBindings

/-- What a command line asks for. -/
structure Command where
  path : Option String := none
  artifactDir : Option String := none
  deploymentDir : Option String := none
  /-- The wanted networks; none are listed if the option is missing. -/
  networks : List Network := []
  verbosity : Nat := 0
  isSilent : Bool := false
  logLimit : Option Log.Limit := none

/-- Why a command line is not carried out. -/
inductive UsageFault where
  | unknownArgument
  /-- An option has no value, or an empty one that it does not accept. -/
  | invalidValue
  /-- The value of an option cannot be read. -/
  | valueValidation
  /-- What can be given once is given twice. -/
  | argumentConflict
  /-- A flag has a value. -/
  | tooManyValues
  | displayHelp
  | displayVersion
deriving DecidableEq, Repr

/-- The values of environment variables that stand in for options. -/
structure Environment where
  projectDir : Option String := none
  artifactDir : Option String := none
  deploymentDir : Option String := none

namespace CommandLine

/-- An option that takes a value. -/
inductive ValueOption where
  | path
  | artifactDir
  | deploymentDir
  | networks
  | logLevel
deriving DecidableEq, Repr

inductive Flag where
  | verbose
  | silent
  | help
  | version
deriving DecidableEq, Repr

/-- What an option's name stands for. -/
inductive Known where
  | value (option : ValueOption)
  | flag (flag : Flag)
deriving DecidableEq, Repr

def longNames : List (String × Known) :=
  [("path", .value .path), ("artifact-dir", .value .artifactDir),
    ("deployment-dir", .value .deploymentDir), ("networks", .value .networks),
    ("log-level", .value .logLevel), ("verbose", .flag .verbose), ("silent", .flag .silent),
    ("help", .flag .help), ("version", .flag .version)]

def shortNames : List (Char × Known) :=
  [('p', .value .path), ('v', .flag .verbose), ('s', .flag .silent), ('h', .flag .help),
    ('V', .flag .version)]

/-- How often the verbosity is counted. -/
def maxVerbosity : Nat := 255

/-- An option whose value is not looked at yet, and may still be missing. -/
structure Pending where
  option : ValueOption
  value : Option String

structure State where
  command : Command := {}
  pending : Option Pending := none
  /-- Whether the options are over. -/
  isOver : Bool := false

/-! ## Values -/

/-- Reads a list of networks with commas between them. -/
def networksOf (text : String) : Except UsageFault (List Network) :=
  (Text.pieces (· == ',') text.toList).mapM fun piece =>
    match Network.ofId? (String.ofList piece) with
    | some n => .ok n
    | none => .error .valueValidation

/-- The value of an option that can be given once. -/
def once {α : Type} (previous : Option α) (value : Except UsageFault α) :
    Except UsageFault (Option α) :=
  if previous.isSome then .error .argumentConflict else value.map some

/-- A path, which is not empty. -/
def pathOf (text : String) : Except UsageFault String :=
  if text.isEmpty then .error .invalidValue else .ok text

def limitOf (text : String) : Except UsageFault Log.Limit :=
  match Log.Limit.ofText? text.toList with
  | some limit => .ok limit
  | none => .error .valueValidation

/-- A command with one more option. -/
def assign (c : Command) (option : ValueOption) (text : String) : Except UsageFault Command :=
  match option with
  | .path => do return { c with path := ← once c.path (pathOf text) }
  | .artifactDir => do return { c with artifactDir := ← once c.artifactDir (pathOf text) }
  | .deploymentDir => do return { c with deploymentDir := ← once c.deploymentDir (pathOf text) }
  | .networks => do return { c with networks := c.networks ++ (← networksOf text) }
  | .logLevel => do return { c with logLimit := ← once c.logLimit (limitOf text) }

/-- A command with one more flag. -/
def raise (c : Command) : Flag → Except UsageFault Command
  | .verbose => .ok { c with verbosity := min (c.verbosity + 1) maxVerbosity }
  | .silent => if c.isSilent then .error .argumentConflict else .ok { c with isSilent := true }
  | .help => .error .displayHelp
  | .version => .error .displayVersion

/-! ## Arguments -/

/-- Looks at the value of the last option. -/
def settle (s : State) : Except UsageFault State :=
  match s.pending with
  | none => .ok s
  | some ⟨_, none⟩ => .error .invalidValue
  | some ⟨option, some text⟩ => do
    return { s with command := ← assign s.command option text, pending := none }

/-- An option with a value of its own. -/
def withValue (s : State) (option : ValueOption) (text : String) : Except UsageFault State := do
  let s ← settle s
  return { s with command := ← assign s.command option text }

/-- An option whose value is the next argument. -/
def withoutValue (s : State) (option : ValueOption) : Except UsageFault State := do
  return { ← settle s with pending := some ⟨option, none⟩ }

def withFlag (s : State) (flag : Flag) : Except UsageFault State := do
  let s ← settle s
  return { s with command := ← raise s.command flag }

/-- Reads an argument that begins with two hyphens, which are left out here. -/
def readLong (s : State) (text : List Char) : Except UsageFault State :=
  let name := String.ofList (text.takeWhile (· ≠ '='))
  let value := match text.dropWhile (· ≠ '=') with
    | [] => none
    | _ :: rest => some (String.ofList rest)
  match longNames.lookup name, value with
  | some (.value option), some text => withValue s option text
  | some (.value option), none => withoutValue s option
  | some (.flag _), some _ => .error .tooManyValues
  | some (.flag flag), none => withFlag s flag
  | none, _ => .error .unknownArgument

/-- Reads short options behind their hyphen. -/
def readShort (s : State) : List Char → Except UsageFault State
  | [] => .ok s
  | c :: rest =>
    match shortNames.lookup c, rest with
    | some (.value option), [] => withoutValue s option
    | some (.value option), '=' :: text => withValue s option (String.ofList text)
    | some (.value option), text => withValue s option (String.ofList text)
    | some (.flag flag), rest => do readShort (← withFlag s flag) rest
    | none, _ => .error .unknownArgument

/-- Reads an argument that is no option. -/
def readPlain (s : State) (arg : String) : Except UsageFault State :=
  match s.pending with
  | some ⟨option, none⟩ => .ok { s with pending := some ⟨option, some arg⟩ }
  | _ => .error .unknownArgument

/-- Reads one argument. -/
def read (s : State) (arg : String) : Except UsageFault State :=
  if s.isOver then .error .unknownArgument
  else
    match arg.toList with
    | ['-', '-'] => .ok { s with isOver := true }
    | '-' :: '-' :: text => readLong s text
    | '-' :: c :: text => readShort s (c :: text)
    | _ => readPlain s arg

/-- Lets the environment stand in for an option that is missing. -/
def standIn (previous value : Option String) : Except UsageFault (Option String) :=
  match previous, value with
  | none, some text => (pathOf text).map some
  | previous, _ => .ok previous

def withEnvironment (c : Command) (e : Environment) : Except UsageFault Command := do
  return { c with
    path := ← standIn c.path e.projectDir
    artifactDir := ← standIn c.artifactDir e.artifactDir
    deploymentDir := ← standIn c.deploymentDir e.deploymentDir }

end CommandLine

namespace Command

/-- Reads a command line. -/
def parse (args : List String) (environment : Environment) : Except UsageFault Command := do
  let s ← args.foldlM CommandLine.read {}
  -- The last option is settled before the environment is looked at.
  CommandLine.withEnvironment (← CommandLine.settle s).command environment

/-- What a command line asks of the log. -/
def logOptions (c : Command) : Log.Options where
  verbosity := some c.verbosity
  isSilent := some c.isSilent
  limit := c.logLimit

end Command

end TypedBindings
