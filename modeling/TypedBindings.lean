import TypedBindings.Abi.Constant
import TypedBindings.Abi.Descriptor
import TypedBindings.Abi.Interface
import TypedBindings.Artifact.Basic
import TypedBindings.Artifact.Document
import TypedBindings.Artifact.Lowering
import TypedBindings.Binding.Allocation
import TypedBindings.Binding.Contract
import TypedBindings.Binding.Deployments
import TypedBindings.Binding.Names
import TypedBindings.Binding.Script
import TypedBindings.Binding.Shared
import TypedBindings.Binding.Types
import TypedBindings.CommandLine
import TypedBindings.Deployment.Directory
import TypedBindings.Deployment.Manifest
import TypedBindings.Deployment.Network
import TypedBindings.Deployment.Schema
import TypedBindings.Deployment.Selection
import TypedBindings.Files.Change
import TypedBindings.Files.Fault
import TypedBindings.Files.Path
import TypedBindings.Files.Tree
import TypedBindings.Json.Basic
import TypedBindings.Json.Parser
import TypedBindings.Json.Printer
import TypedBindings.Json.Reader
import TypedBindings.Json.Record
import TypedBindings.Log.Console
import TypedBindings.Log.Event
import TypedBindings.Log.Filter
import TypedBindings.Log.Level
import TypedBindings.Main
import TypedBindings.OrderedMap
import TypedBindings.Project
import TypedBindings.Proofs.Abi.Constant
import TypedBindings.Proofs.Abi.Descriptor
import TypedBindings.Proofs.Abi.DescriptorLanguage
import TypedBindings.Proofs.Artifact.Faults
import TypedBindings.Proofs.Artifact.Lowering
import TypedBindings.Proofs.Artifact.Rewriting
import TypedBindings.Proofs.Binding.Allocation
import TypedBindings.Proofs.Binding.ContractNames
import TypedBindings.Proofs.Binding.ContractParts
import TypedBindings.Proofs.Binding.ContractReferences
import TypedBindings.Proofs.Binding.DeploymentNames
import TypedBindings.Proofs.Binding.DeploymentParts
import TypedBindings.Proofs.Binding.DeploymentType
import TypedBindings.Proofs.Binding.InstanceLookup
import TypedBindings.Proofs.Binding.Literals
import TypedBindings.Proofs.Binding.Rebuilding
import TypedBindings.Proofs.Binding.Rebuilt
import TypedBindings.Proofs.Binding.Selection
import TypedBindings.Proofs.Binding.Stubs
import TypedBindings.Proofs.Binding.Types
import TypedBindings.Proofs.Deployment.Directory
import TypedBindings.Proofs.Deployment.Filtering
import TypedBindings.Proofs.Deployment.Lookup
import TypedBindings.Proofs.Deployment.Manifest
import TypedBindings.Proofs.Deployment.Merging
import TypedBindings.Proofs.Deployment.NetworkOrder
import TypedBindings.Proofs.Deployment.Rewriting
import TypedBindings.Proofs.Documents
import TypedBindings.Proofs.Files.Directory
import TypedBindings.Proofs.Files.MadeDirectories
import TypedBindings.Proofs.Files.OneMoreFile
import TypedBindings.Proofs.Files.Parents
import TypedBindings.Proofs.Files.Places
import TypedBindings.Proofs.Files.Remaking
import TypedBindings.Proofs.Files.Specifiers
import TypedBindings.Proofs.Insertion
import TypedBindings.Proofs.Json.Leaves
import TypedBindings.Proofs.Json.Merged
import TypedBindings.Proofs.Json.Parsed
import TypedBindings.Proofs.Json.Printing
import TypedBindings.Proofs.Json.Record
import TypedBindings.Proofs.Json.Rewriting
import TypedBindings.Proofs.OrderedMap
import TypedBindings.Proofs.Results
import TypedBindings.Proofs.Run.Accounting
import TypedBindings.Proofs.Run.Clearing
import TypedBindings.Proofs.Run.Course
import TypedBindings.Proofs.Run.Isolation
import TypedBindings.Proofs.Run.Leaving
import TypedBindings.Proofs.Run.Limited
import TypedBindings.Proofs.Run.OneWriter
import TypedBindings.Proofs.Run.Regeneration
import TypedBindings.Proofs.Run.Steps
import TypedBindings.Proofs.Text.Number
import TypedBindings.Proofs.Text.Parts
import TypedBindings.Proofs.Text.Quoted
import TypedBindings.Proofs.TypeScript.Arrangement
import TypedBindings.Proofs.TypeScript.Evaluation
import TypedBindings.Proofs.TypeScript.Grouping
import TypedBindings.Proofs.TypeScript.Items
import TypedBindings.Proofs.TypeScript.Layouts
import TypedBindings.Proofs.TypeScript.Lexemes
import TypedBindings.Proofs.TypeScript.Literals
import TypedBindings.Proofs.TypeScript.Names
import TypedBindings.Proofs.TypeScript.OneLine
import TypedBindings.Proofs.TypeScript.Pieces
import TypedBindings.Proofs.TypeScript.Precedence
import TypedBindings.Proofs.TypeScript.Printing
import TypedBindings.Proofs.TypeScript.Resolution
import TypedBindings.Proofs.TypeScript.Runs
import TypedBindings.Proofs.TypeScript.Soundness
import TypedBindings.Proofs.TypeScript.Spacing
import TypedBindings.Proofs.TypeScript.Steps
import TypedBindings.Proofs.TypeScript.Token
import TypedBindings.Proofs.TypeScript.TypeTexts
import TypedBindings.Proofs.TypeScript.Width
import TypedBindings.Run.Discovery
import TypedBindings.Run.Generation
import TypedBindings.Run.Limited
import TypedBindings.Run.Options
import TypedBindings.Run.Program
import TypedBindings.Run.Report
import TypedBindings.Settings.Basic
import TypedBindings.Settings.Toml
import TypedBindings.Text.Blank
import TypedBindings.Text.Hex
import TypedBindings.Text.Number
import TypedBindings.Text.Pieces
import TypedBindings.Text.Quoted
import TypedBindings.TypeScript.Expr
import TypedBindings.TypeScript.Layout
import TypedBindings.TypeScript.Printer
import TypedBindings.TypeScript.Render
import TypedBindings.TypeScript.SourceUnit
import TypedBindings.TypeScript.Ty
