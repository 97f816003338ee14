import Vhdl.Analysis
import Vhdl.Binary64
import Vhdl.CompileOrder
import Vhdl.Config
import Vhdl.Config.External
import Vhdl.Config.Reader
import Vhdl.Decimal.Shortest
import Vhdl.Declaration
import Vhdl.Dependency
import Vhdl.Dependency.Build
import Vhdl.Design
import Vhdl.Design.Predefined
import Vhdl.DesignUnit
import Vhdl.DesignUnit.Kind
import Vhdl.Diagnostic
import Vhdl.Diagnostic.Code
import Vhdl.Document
import Vhdl.Expr
import Vhdl.Expr.Equal
import Vhdl.Expr.Render
import Vhdl.Graph
import Vhdl.Graph.Keyed
import Vhdl.Graph.Reach
import Vhdl.Handle
import Vhdl.Hierarchy
import Vhdl.Identifier
import Vhdl.Library
import Vhdl.Link
import Vhdl.Message
import Vhdl.Name
import Vhdl.Object
import Vhdl.Operator
import Vhdl.Proofs.Adjacency
import Vhdl.Proofs.ArchitectureOrder
import Vhdl.Proofs.Binding
import Vhdl.Proofs.Children
import Vhdl.Proofs.CircularDependencies
import Vhdl.Proofs.CompileOrder
import Vhdl.Proofs.Components
import Vhdl.Proofs.Conditional
import Vhdl.Proofs.Consistency
import Vhdl.Proofs.Contexts
import Vhdl.Proofs.Correspondence
import Vhdl.Proofs.Denotation
import Vhdl.Proofs.Dependences
import Vhdl.Proofs.Derivation
import Vhdl.Proofs.Diagnostics
import Vhdl.Proofs.DocumentCycles
import Vhdl.Proofs.DocumentGraph
import Vhdl.Proofs.DottedName
import Vhdl.Proofs.Edges
import Vhdl.Proofs.Freshness
import Vhdl.Proofs.Grammar
import Vhdl.Proofs.Growth
import Vhdl.Proofs.InPlace
import Vhdl.Proofs.InstanceEdges
import Vhdl.Proofs.Instances
import Vhdl.Proofs.KeyedGraph
import Vhdl.Proofs.LabelSearch
import Vhdl.Proofs.Layers
import Vhdl.Proofs.Library
import Vhdl.Proofs.LinkEdges
import Vhdl.Proofs.LinkErrors
import Vhdl.Proofs.LinkLifetime
import Vhdl.Proofs.Linking
import Vhdl.Proofs.LoadOrder
import Vhdl.Proofs.Loading
import Vhdl.Proofs.Lookup
import Vhdl.Proofs.Nesting
import Vhdl.Proofs.Objects
import Vhdl.Proofs.OpenSlots
import Vhdl.Proofs.Operations
import Vhdl.Proofs.Outcomes
import Vhdl.Proofs.Places
import Vhdl.Proofs.PredefinedFlags
import Vhdl.Proofs.PredefinedLibraries
import Vhdl.Proofs.PredefinedPackages
import Vhdl.Proofs.Provenance
import Vhdl.Proofs.Reachable
import Vhdl.Proofs.Reading
import Vhdl.Proofs.Region
import Vhdl.Proofs.Registration
import Vhdl.Proofs.Registry
import Vhdl.Proofs.Roots
import Vhdl.Proofs.SameContent
import Vhdl.Proofs.Scheduling
import Vhdl.Proofs.Scopes
import Vhdl.Proofs.Selection
import Vhdl.Proofs.SlotLists
import Vhdl.Proofs.Slots
import Vhdl.Proofs.Spelling
import Vhdl.Proofs.StuckDocuments
import Vhdl.Proofs.Table
import Vhdl.Proofs.Token
import Vhdl.Proofs.TopLevel
import Vhdl.Proofs.Traversal
import Vhdl.Proofs.Tree
import Vhdl.Proofs.TreeView
import Vhdl.Proofs.Unused
import Vhdl.Proofs.Vertices
import Vhdl.Proofs.Visibility
import Vhdl.Proofs.Walk
import Vhdl.Reference
import Vhdl.Region
import Vhdl.SourcePath
import Vhdl.Standard
import Vhdl.Statement.Concurrent
import Vhdl.Statement.Sequential
import Vhdl.Statement.Walk
import Vhdl.Store
import Vhdl.Store.Register
import Vhdl.Table
import Vhdl.Text.Case
import Vhdl.Text.Lowercase
import Vhdl.Text.Utf8
import Vhdl.Toml
import Vhdl.Toml.Draft
import Vhdl.Toml.Reader
import Vhdl.Toml.Scalar
import Vhdl.Toml.Text
import Vhdl.Visibility
