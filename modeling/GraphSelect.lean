import GraphSelect.Command.Arguments
import GraphSelect.Command.Run
import GraphSelect.Decimal.Format
import GraphSelect.Decimal.Shortest
import GraphSelect.Expr.Context
import GraphSelect.Expr.Emit
import GraphSelect.Expr.Problem
import GraphSelect.Expr.Typing
import GraphSelect.Expr.View
import GraphSelect.Json.Basic
import GraphSelect.Json.Printer
import GraphSelect.Json.Reader
import GraphSelect.Main
import GraphSelect.Proofs.Decimal.Finite
import GraphSelect.Proofs.Decimal.Rounding
import GraphSelect.Proofs.Decimal.Text
import GraphSelect.Proofs.Decimal.Zeros
import GraphSelect.Proofs.Expr.Alike
import GraphSelect.Proofs.Expr.Causes
import GraphSelect.Proofs.Expr.Chains
import GraphSelect.Proofs.Expr.Context
import GraphSelect.Proofs.Expr.Coverage
import GraphSelect.Proofs.Expr.Emission
import GraphSelect.Proofs.Expr.FragmentTypes
import GraphSelect.Proofs.Expr.Meaning
import GraphSelect.Proofs.Expr.Replay
import GraphSelect.Proofs.Expr.Scopes
import GraphSelect.Proofs.Json.Fields
import GraphSelect.Proofs.Query.Aggregation
import GraphSelect.Proofs.Query.AliasOrder
import GraphSelect.Proofs.Query.Buckets
import GraphSelect.Proofs.Query.Condition
import GraphSelect.Proofs.Query.Endpoints
import GraphSelect.Proofs.Query.Fragments
import GraphSelect.Proofs.Query.Grouping
import GraphSelect.Proofs.Query.Ordinals
import GraphSelect.Proofs.Query.Outline
import GraphSelect.Proofs.Query.Phases
import GraphSelect.Proofs.Query.Placement
import GraphSelect.Proofs.Query.Qualifiers
import GraphSelect.Proofs.Query.Refusals
import GraphSelect.Proofs.Query.RowFormat
import GraphSelect.Proofs.Query.Rows
import GraphSelect.Proofs.Query.SortKeys
import GraphSelect.Proofs.Query.StageOrder
import GraphSelect.Proofs.Query.Stages
import GraphSelect.Proofs.Query.StarSelect
import GraphSelect.Proofs.Registry.Operations
import GraphSelect.Proofs.Registry.Renames
import GraphSelect.Proofs.Registry.Runs
import GraphSelect.Proofs.Row.Cells
import GraphSelect.Proofs.Row.Decoding
import GraphSelect.Proofs.Row.Quotation
import GraphSelect.Proofs.Schema.Acceptance
import GraphSelect.Proofs.Schema.Columns
import GraphSelect.Proofs.Schema.Lookup
import GraphSelect.Proofs.Schema.Unambiguous
import GraphSelect.Proofs.Sql.RoundTrip
import GraphSelect.Proofs.Stream.Backpressure
import GraphSelect.Proofs.Stream.Closing
import GraphSelect.Proofs.Stream.Moves
import GraphSelect.Proofs.Stream.Progress
import GraphSelect.Proofs.Stream.Reference
import GraphSelect.Proofs.Stream.Refinement
import GraphSelect.Proofs.Stream.Waiting
import GraphSelect.Proofs.Text.Lowercase
import GraphSelect.Proofs.Traversal.Script
import GraphSelect.Query.Compile
import GraphSelect.Query.Filter
import GraphSelect.Query.Json
import GraphSelect.Query.Keys
import GraphSelect.Query.Projection
import GraphSelect.Registry
import GraphSelect.Row.Decoder
import GraphSelect.Scalar
import GraphSelect.Schema.ColumnType
import GraphSelect.Schema.Definition
import GraphSelect.Schema.Json
import GraphSelect.Schema.Table
import GraphSelect.Schema.Yaml
import GraphSelect.Settings.Basic
import GraphSelect.Settings.Document
import GraphSelect.Settings.Environment
import GraphSelect.Sql.Build
import GraphSelect.Sql.Json
import GraphSelect.Sql.Node
import GraphSelect.Stream.Basic
import GraphSelect.Stream.Cursor
import GraphSelect.Stream.Run
import GraphSelect.Text.Blank
import GraphSelect.Text.Casing
import GraphSelect.Text.Cut
import GraphSelect.Text.Lowercase
import GraphSelect.Traversal.Basic
import GraphSelect.Traversal.Groovy
import GraphSelect.Traversal.Json
import GraphSelect.Yaml.Basic
import GraphSelect.Yaml.Reader
import GraphSelect.Yaml.Scalar
import GraphSelect.Yaml.Spot
