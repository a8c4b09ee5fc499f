import Simula.AttributeFile
import Simula.Check
import Simula.Check.Prefixes
import Simula.Check.Specifications
import Simula.Check.State
import Simula.Check.Statements
import Simula.Check.Typing
import Simula.ClassLoading
import Simula.Coded
import Simula.CommandLine
import Simula.CommandLine.Argument
import Simula.Constant
import Simula.Decimal.Shortest
import Simula.Diagnostic
import Simula.Error
import Simula.Graph.Traversal
import Simula.Hierarchy
import Simula.Identifier
import Simula.Kind
import Simula.Library
import Simula.Library.FileTree
import Simula.Library.Folder
import Simula.Library.Package
import Simula.Main
import Simula.Meaning
import Simula.Node
import Simula.ObjectStream.Layout
import Simula.ObjectStream.Reader
import Simula.ObjectStream.Shape
import Simula.ObjectStream.Writer
import Simula.Operator
import Simula.Options
import Simula.Outline
import Simula.Proofs.AttributeFile.Bounds
import Simula.Proofs.AttributeFile.Calls
import Simula.Proofs.AttributeFile.Externals
import Simula.Proofs.AttributeFile.Growth
import Simula.Proofs.AttributeFile.Header
import Simula.Proofs.AttributeFile.Parts
import Simula.Proofs.AttributeFile.RoundTrip
import Simula.Proofs.Check.Depth
import Simula.Proofs.Check.Descent
import Simula.Proofs.Check.Frame
import Simula.Proofs.Check.Nesting
import Simula.Proofs.Check.Prefixes
import Simula.Proofs.Check.Reports
import Simula.Proofs.Check.Termination
import Simula.Proofs.Effects
import Simula.Proofs.Graph.Cycles
import Simula.Proofs.Graph.Reachability
import Simula.Proofs.ObjectStream.Containment
import Simula.Proofs.ObjectStream.Fields
import Simula.Proofs.ObjectStream.Growth
import Simula.Proofs.ObjectStream.Independence
import Simula.Proofs.ObjectStream.Objects
import Simula.Proofs.ObjectStream.Openings
import Simula.Proofs.ObjectStream.Record
import Simula.Proofs.ObjectStream.Rewriting
import Simula.Proofs.ObjectStream.RoundTrip
import Simula.Proofs.ObjectStream.Transcript
import Simula.Proofs.Session.Checking
import Simula.Proofs.Session.Decoding
import Simula.Proofs.Session.Dependencies
import Simula.Proofs.Session.Enclosing
import Simula.Proofs.Session.Loading
import Simula.Proofs.Session.PrefixChains
import Simula.Proofs.Session.SeparateCompilation
import Simula.Proofs.Session.Workspace
import Simula.Proofs.Stream.Consumption
import Simula.Proofs.Stream.Numbers
import Simula.Proofs.Stream.Text
import Simula.Proofs.Stream.Values
import Simula.Proofs.Tree.Nodes
import Simula.Session
import Simula.Stream.Bytes
import Simula.Stream.Decoder
import Simula.Stream.Encoder
import Simula.Stream.Item
import Simula.Table
import Simula.Text.Printable
import Simula.Text.Quoted
import Simula.Text.Units
import Simula.Tree
import Simula.Tree.Building
import Simula.Tree.Labels
import Simula.Tree.PrefixChain
import Simula.Ty
import Simula.Ty.Conversion
import Simula.Proofs.ClassLoading.Completeness
import Simula.Proofs.Graph.Walks
import Simula.Proofs.Meaning.Lookups
import Simula.Proofs.Check.Access
import Simula.Proofs.Check.Regrowth
import Simula.Proofs.Check.PrefixOrder
import Simula.Proofs.Hierarchy.Edges
import Simula.Proofs.Hierarchy.Loading
import Simula.Proofs.Session.HierarchyHeader
import Simula.Proofs.Session.SuperClasses
import Simula.Proofs.Meaning.Links
import Simula.Proofs.Check.ReferenceAssignments
import Simula.Proofs.Labels.Numbering
import Simula.Proofs.Identifier
import Simula.Proofs.Labels.Cache
import Simula.Proofs.Labels.Runs
import Simula.Proofs.Stream.Parsing
import Simula.Proofs.ObjectStream.Parsing
import Simula.Proofs.AttributeFile.DamagedFiles
import Simula.Proofs.Meaning.PrefixPaths
import Simula.Proofs.Meaning.Pairing
import Simula.Proofs.Meaning.Masking
import Simula.Proofs.Check.PrefixCycles
import Simula.Proofs.Check.Specifications
import Simula.Proofs.Check.ProtectedAccess
import Simula.Proofs.Check.Views
import Simula.Proofs.Check.ExpressionTrees
import Simula.Proofs.Check.OperandTypes
import Simula.Proofs.Check.UndefinedNames
import Simula.Proofs.Ty.Lattice
import Simula.Proofs.Labels.Agreement
import Simula.Proofs.Check.ExpressionGraphs
import Simula.Proofs.Check.Annotation
import Simula.Proofs.Check.Retyping
import Simula.Proofs.Check.CallRules
import Simula.Proofs.Check.UndefinedTypes
import Simula.Proofs.Check.CalledExpressions
import Simula.Proofs.Check.CheckedTypes
import Simula.Proofs.Stream.Items
import Simula.Proofs.Graph.DepthFirst
import Simula.Proofs.Outline.Entries
import Simula.Proofs.Recording
import Simula.Proofs.ObjectStream.Pieces
import Simula.Proofs.ObjectStream.Numbering
import Simula.Proofs.Check.Preparation
import Simula.Proofs.Check.EnteredScopes
import Simula.Proofs.Meaning.Spelling
