import ModelGraph.Tensor.Basic
import ModelGraph.Operator.Standard
import ModelGraph.Script.Grammar
import ModelGraph.Machine.Standard
import ModelGraph.Trace.Forward
import ModelGraph.Nnapi.Decode
import ModelGraph.Archive.Checkpoint
import ModelGraph.Weights.Find
import ModelGraph.Graph.Document
import ModelGraph.Model.Files
import ModelGraph.Cli.Run
import ModelGraph.Main
import ModelGraph.Proofs.Arena.Builtin
import ModelGraph.Proofs.Arena.Closed
import ModelGraph.Proofs.Arena.Enclave
import ModelGraph.Proofs.Arena.Evaluating
import ModelGraph.Proofs.Arena.Executing
import ModelGraph.Proofs.Arena.Instances
import ModelGraph.Proofs.Arena.Loading
import ModelGraph.Proofs.Arena.Requests
import ModelGraph.Proofs.Arena.Resolving
import ModelGraph.Proofs.Arena.Tame
import ModelGraph.Proofs.Arena.Tracing
import ModelGraph.Proofs.Archive.Filling
import ModelGraph.Proofs.Archive.References
import ModelGraph.Proofs.Archive.Stream
import ModelGraph.Proofs.Graph.Elision
import ModelGraph.Proofs.Graph.Holding
import ModelGraph.Proofs.Graph.Leaves
import ModelGraph.Proofs.Graph.Slots
import ModelGraph.Proofs.Graph.Walk
import ModelGraph.Proofs.Machine.Builtin
import ModelGraph.Proofs.Machine.Codeless
import ModelGraph.Proofs.Machine.Comparison
import ModelGraph.Proofs.Machine.Congruence
import ModelGraph.Proofs.Machine.Fresh
import ModelGraph.Proofs.Machine.Operations
import ModelGraph.Proofs.Machine.Outcome
import ModelGraph.Proofs.Machine.Packages
import ModelGraph.Proofs.Machine.Runs
import ModelGraph.Proofs.Machine.Standard
import ModelGraph.Proofs.Nnapi.Layout
import ModelGraph.Proofs.Nnapi.RoundTrip
import ModelGraph.Proofs.Number.Numeral
import ModelGraph.Proofs.Number.Word
import ModelGraph.Proofs.Object.Frame
import ModelGraph.Proofs.Object.Heap
import ModelGraph.Proofs.Object.Paths
import ModelGraph.Proofs.OrderedMap
import ModelGraph.Proofs.Pickle.Agreement
import ModelGraph.Proofs.Pickle.Growth
import ModelGraph.Proofs.Pickle.Locality
import ModelGraph.Proofs.Pickle.ObjectGraph
import ModelGraph.Proofs.Pickle.Passing
import ModelGraph.Proofs.Pickle.Reading
import ModelGraph.Proofs.Pickle.RoundTrip
import ModelGraph.Proofs.Pickle.Steps
import ModelGraph.Proofs.Script.Blocks
import ModelGraph.Proofs.Script.Clauses
import ModelGraph.Proofs.Script.Descent
import ModelGraph.Proofs.Script.Layout
import ModelGraph.Proofs.Script.Nesting
import ModelGraph.Proofs.Script.Operators
import ModelGraph.Proofs.Script.Parameters
import ModelGraph.Proofs.Script.Phrases
import ModelGraph.Proofs.Script.Primaries
import ModelGraph.Proofs.Script.Program
import ModelGraph.Proofs.Script.Progress
import ModelGraph.Proofs.Script.Reading
import ModelGraph.Proofs.Script.RoundTrip
import ModelGraph.Proofs.Script.Scanning
import ModelGraph.Proofs.Script.Stage
import ModelGraph.Proofs.Script.Steps
import ModelGraph.Proofs.Script.Surface
import ModelGraph.Proofs.Script.TokenStream
import ModelGraph.Proofs.Script.Writing
import ModelGraph.Proofs.Tensor.Storage
import ModelGraph.Proofs.Text.Utf8
import ModelGraph.Proofs.Trace.Allotment
import ModelGraph.Proofs.Trace.Arguments
import ModelGraph.Proofs.Trace.Attempts
import ModelGraph.Proofs.Trace.Binding
import ModelGraph.Proofs.Trace.Identity
import ModelGraph.Proofs.Trace.Inputs
import ModelGraph.Proofs.Trace.Matching
import ModelGraph.Proofs.Trace.Moves
import ModelGraph.Proofs.Trace.Recording
import ModelGraph.Proofs.Trace.SingleAssignment
import ModelGraph.Proofs.Trace.Unnoticed
import ModelGraph.Proofs.Trace.Unpacking
import ModelGraph.Proofs.Archive.Tar
import ModelGraph.Proofs.Archive.TarRoundTrip
import ModelGraph.Proofs.Archive.BundleRoundTrip
import ModelGraph.Proofs.Graph.Chain
import ModelGraph.Proofs.Graph.Elements
import ModelGraph.Proofs.Nnapi.Consumption
import ModelGraph.Proofs.Tensor.RowMajor
import ModelGraph.Proofs.Tensor.Preview
import ModelGraph.Proofs.Tensor.Capacity
import ModelGraph.Proofs.Tensor.Sharing
import ModelGraph.Proofs.Tensor.Views
import ModelGraph.Proofs.Nnapi.Accepted
import ModelGraph.Proofs.Nnapi.DeclaredLength
import ModelGraph.Proofs.Pickle.Marked
import ModelGraph.Proofs.Pickle.TextLines
import ModelGraph.Proofs.Weights.TensorFree
import ModelGraph.Proofs.Graph.FieldNames
import ModelGraph.Proofs.Graph.Defaults
import ModelGraph.Proofs.Archive.ManifestModules
import ModelGraph.Proofs.Object.Binding
import ModelGraph.Proofs.Operator.Catalog
import ModelGraph.Proofs.Machine.Items
import ModelGraph.Proofs.Machine.Arithmetic
import ModelGraph.Proofs.Machine.Ranges
import ModelGraph.Proofs.Script.Literals
