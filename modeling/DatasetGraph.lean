import DatasetGraph.Text.Blank
import DatasetGraph.Text.Quoted
import DatasetGraph.Json.Printer
import DatasetGraph.Json.Decode
import DatasetGraph.Encoding
import DatasetGraph.Graph.Decode
import DatasetGraph.Graph.Merge
import DatasetGraph.Conversion
import DatasetGraph.Document.Decode
import DatasetGraph.Schema
import DatasetGraph.Identifier
import DatasetGraph.Kind.Decode
import DatasetGraph.Store.Adjacency
import DatasetGraph.Store.Table
import DatasetGraph.Store.Lifecycle
import DatasetGraph.Query.Page
import DatasetGraph.Settings
import DatasetGraph.Text.Form
import DatasetGraph.Http.Service
import DatasetGraph.CommandLine.Run
import DatasetGraph.Store.Snapshot
import DatasetGraph.Main
import DatasetGraph.CommandLine.DatabaseFile
import DatasetGraph.CommandLine.DatabaseSetup
import DatasetGraph.CommandLine.DatabaseImage
import DatasetGraph.Proofs.Fallible
import DatasetGraph.Proofs.Identifier
import DatasetGraph.Proofs.Digits
import DatasetGraph.Proofs.Identifier.Grammar
import DatasetGraph.Proofs.Double
import DatasetGraph.Proofs.Double.Shortest
import DatasetGraph.Proofs.Double.Reading
import DatasetGraph.Proofs.Json.Compact
import DatasetGraph.Proofs.Json.ReadBack
import DatasetGraph.Proofs.Json.Depth
import DatasetGraph.Proofs.Graph.Canonical
import DatasetGraph.Proofs.Store.Contents
import DatasetGraph.Proofs.Store.Legible
import DatasetGraph.Proofs.Store.Table
import DatasetGraph.Proofs.Store.Adjacency
import DatasetGraph.Proofs.Store.WellFormed
import DatasetGraph.Proofs.Store.Run
import DatasetGraph.Proofs.Store.Blocking
import DatasetGraph.Proofs.Store.Legibility
import DatasetGraph.Proofs.Store.Reading
import DatasetGraph.Proofs.Store.Path
import DatasetGraph.Proofs.Store.Walk
import DatasetGraph.Proofs.Store.Cascade
import DatasetGraph.Proofs.Store.Additivity
import DatasetGraph.Proofs.Query.Selection
import DatasetGraph.Proofs.Store.Invariant
import DatasetGraph.Proofs.Query.Reordering
import DatasetGraph.Proofs.Store.Agreement
import DatasetGraph.Proofs.Query.Neighborhoods
import DatasetGraph.Proofs.Query.Order
import DatasetGraph.Proofs.Query.Roots
import DatasetGraph.Proofs.Query.Repeats
import DatasetGraph.Proofs.Date
import DatasetGraph.Proofs.Query.Publication
import DatasetGraph.Proofs.Query.Narrowing
import DatasetGraph.Proofs.Conversion.Merge
import DatasetGraph.Proofs.Conversion.Exact
import DatasetGraph.Proofs.Store.Ingest
import DatasetGraph.Proofs.Conversion.Removal
import DatasetGraph.Proofs.Conversion.Types
import DatasetGraph.Proofs.Conversion.Validity
import DatasetGraph.Proofs.Conversion.Reordering
import DatasetGraph.Proofs.Store.Failure
import DatasetGraph.Proofs.Store.Schema
import DatasetGraph.Proofs.Http.Bodies
import DatasetGraph.Proofs.Http.Service
import DatasetGraph.Proofs.Http.Ingest
import DatasetGraph.Proofs.Store.Layout
import DatasetGraph.Proofs.Store.Values
import DatasetGraph.Proofs.Store.Retry
import DatasetGraph.Proofs.Store.Reingest
import DatasetGraph.Proofs.Store.Passes
import DatasetGraph.Proofs.Store.Convergence
import DatasetGraph.Proofs.Store.Concurrency
import DatasetGraph.Proofs.Query.Encoding
import DatasetGraph.Proofs.Store.Search
import DatasetGraph.Proofs.Store.View
import DatasetGraph.Proofs.Store.Update
import DatasetGraph.Proofs.Store.RoundTrip
import DatasetGraph.Proofs.Store.Absorption
import DatasetGraph.Proofs.Store.Merging
import DatasetGraph.Proofs.Document.NormalForm
import DatasetGraph.Proofs.CommandLine.Ingest
