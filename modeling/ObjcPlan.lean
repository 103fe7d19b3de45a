import ObjcPlan.Action
import ObjcPlan.Analysis
import ObjcPlan.Archive
import ObjcPlan.Cache
import ObjcPlan.Compile
import ObjcPlan.Declaration
import ObjcPlan.DepFile.Basic
import ObjcPlan.DepFile.Discovery
import ObjcPlan.Diagnostic
import ObjcPlan.Error
import ObjcPlan.Facts
import ObjcPlan.FileKind
import ObjcPlan.FileTree
import ObjcPlan.Fingerprint
import ObjcPlan.Graph.Basic
import ObjcPlan.Graph.Cycle
import ObjcPlan.Graph.Order
import ObjcPlan.Json.Basic
import ObjcPlan.Json.Codec
import ObjcPlan.Json.Printer
import ObjcPlan.Label
import ObjcPlan.ModuleMap
import ObjcPlan.Options.Basic
import ObjcPlan.Options.Error
import ObjcPlan.Options.Fields
import ObjcPlan.Options.Loader
import ObjcPlan.Options.Modes
import ObjcPlan.Options.Update
import ObjcPlan.OrderedSet
import ObjcPlan.Path.Basic
import ObjcPlan.Path.Parent
import ObjcPlan.Platform
import ObjcPlan.Profile
import ObjcPlan.Proofs.Calls
import ObjcPlan.Proofs.Codec
import ObjcPlan.Proofs.Compact
import ObjcPlan.Proofs.Digest
import ObjcPlan.Proofs.Evaluation
import ObjcPlan.Proofs.Failures
import ObjcPlan.Proofs.Inheritance
import ObjcPlan.Proofs.Interleaving
import ObjcPlan.Proofs.Progress
import ObjcPlan.Proofs.RunInvariant
import ObjcPlan.Proofs.Schedule
import ObjcPlan.Proofs.SharedCache
import ObjcPlan.Proofs.Traversal
import ObjcPlan.Provider.Key
import ObjcPlan.Provider.Merge
import ObjcPlan.Provider.Set
import ObjcPlan.Resolver
import ObjcPlan.Sha256
import ObjcPlan.SortedMap
import ObjcPlan.Text.Blank
import ObjcPlan.Text.CaseTable
import ObjcPlan.Text.Lower
import ObjcPlan.Text.LowerTable
import ObjcPlan.Text.Split
import ObjcPlan.Toml.Document
import ObjcPlan.Toml.Quoted
import ObjcPlan.Toml.Table
import ObjcPlan.Toolchain
import ObjcPlan.Validation
import ObjcPlan.Workspace
import ObjcPlan.Proofs.Analyses
import ObjcPlan.Proofs.Locality
import ObjcPlan.Proofs.Linking
import ObjcPlan.Proofs.Inputs
import ObjcPlan.Proofs.Components
import ObjcPlan.Proofs.Outputs
import ObjcPlan.Proofs.ModuleNames
import ObjcPlan.Proofs.Resolution
import ObjcPlan.Proofs.Descent
import ObjcPlan.Proofs.Containment
import ObjcPlan.Proofs.Lexical
import ObjcPlan.Proofs.Headers
import ObjcPlan.Proofs.StoredAnalyses
import ObjcPlan.Proofs.Replanning
import ObjcPlan.Proofs.RoundTrip
import ObjcPlan.Proofs.BuildOrder
import ObjcPlan.Proofs.Switches
import ObjcPlan.Proofs.DegreeTable
import ObjcPlan.Proofs.Cycles
import ObjcPlan.Proofs.DiscoveredInputs
import ObjcPlan.Proofs.MakeVariables
import ObjcPlan.Proofs.Arguments
import ObjcPlan.Proofs.Definitions
import ObjcPlan.Proofs.ModulesCache
import ObjcPlan.Proofs.Overrides
import ObjcPlan.Proofs.Ancestors
import ObjcPlan.Proofs.Containers
import ObjcPlan.Proofs.IncludeDirectories
import ObjcPlan.Proofs.WrittenRules
import ObjcPlan.Proofs.FileNames
import ObjcPlan.Proofs.SourceFiles
import ObjcPlan.Proofs.OwnOutputs
import ObjcPlan.Proofs.NamedFiles
import ObjcPlan.Proofs.CompileInputs
import ObjcPlan.Proofs.LogicalLines
import ObjcPlan.Proofs.Narrowing
import ObjcPlan.Proofs.Absorption
import ObjcPlan.Proofs.Violations
import ObjcPlan.Proofs.ReferenceCounting
import ObjcPlan.Proofs.LabelTexts
import ObjcPlan.Proofs.LoadedOptions
import ObjcPlan.Proofs.CacheHistory
import ObjcPlan.Proofs.NearestFile
import ObjcPlan.Proofs.SameDirectory
import ObjcPlan.Proofs.Expansion
import ObjcPlan.Proofs.Declarations
