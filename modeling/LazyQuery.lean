import LazyQuery.Batch
import LazyQuery.Calendar.Clock
import LazyQuery.Calendar.Day
import LazyQuery.Calendar.Reader
import LazyQuery.Cell
import LazyQuery.Cell.Text
import LazyQuery.Cell.Value
import LazyQuery.Client
import LazyQuery.Context
import LazyQuery.DataType
import LazyQuery.DataType.Conversion
import LazyQuery.DataType.Equality
import LazyQuery.DataType.Text
import LazyQuery.Datum
import LazyQuery.Datum.Equality
import LazyQuery.Datum.Text
import LazyQuery.Datum.Typing
import LazyQuery.Delimited
import LazyQuery.Delimited.Inference
import LazyQuery.Engine.Artifact
import LazyQuery.Engine.Cast
import LazyQuery.Engine.Coercion
import LazyQuery.Engine.ColumnType
import LazyQuery.Engine.Export
import LazyQuery.Engine.Extent
import LazyQuery.Engine.Formula
import LazyQuery.Engine.Kernel
import LazyQuery.Engine.Pattern
import LazyQuery.Engine.Planning
import LazyQuery.Engine.Reduction
import LazyQuery.Engine.Relation
import LazyQuery.Engine.Rows
import LazyQuery.Engine.Term
import LazyQuery.Engine.TypeMapping
import LazyQuery.Engine.Value
import LazyQuery.Expr
import LazyQuery.Expr.Equality
import LazyQuery.Expr.Field
import LazyQuery.Expr.Sugar
import LazyQuery.Expr.Text
import LazyQuery.Fault
import LazyQuery.Fault.Family
import LazyQuery.Files
import LazyQuery.Frame
import LazyQuery.Number.Double
import LazyQuery.Number.Reader
import LazyQuery.Number.Rounding
import LazyQuery.Number.Shortest
import LazyQuery.Plan
import LazyQuery.Plan.Equality
import LazyQuery.Plan.Text
import LazyQuery.QueryEngine
import LazyQuery.Schema
import LazyQuery.Settings
import LazyQuery.Storage
import LazyQuery.Text.Blank
import LazyQuery.Text.Digit
import LazyQuery.Text.Printable
import LazyQuery.Text.Quoted
import LazyQuery.Text.Range
import LazyQuery.Trace
import LazyQuery.Wire.Item
import LazyQuery.Wire.Layout
import LazyQuery.Wire.Payload
import LazyQuery.Wire.Reading
import LazyQuery.Wire.Writing
import LazyQuery.Proofs.Context.Agreement
import LazyQuery.Proofs.Context.Answer
import LazyQuery.Proofs.Engine.Arrival
import LazyQuery.Proofs.Engine.Literal
import LazyQuery.Proofs.Engine.Replacement
import LazyQuery.Proofs.Engine.Selection
import LazyQuery.Proofs.Frame.Building
import LazyQuery.Proofs.Frame.Pushdown
import LazyQuery.Proofs.Wire.Bytes
import LazyQuery.Proofs.Wire.Delivery
import LazyQuery.Proofs.Wire.Items
import LazyQuery.Proofs.Wire.Nodes
import LazyQuery.Proofs.Wire.Requests
import LazyQuery.Proofs.Wire.Values
import LazyQuery.Proofs.Engine.Denotation
import LazyQuery.Proofs.Engine.Evenness
import LazyQuery.Proofs.Engine.Leaving
import LazyQuery.Proofs.Engine.Opening
import LazyQuery.Proofs.Frame.Height
import LazyQuery.Proofs.Frame.Filtering
import LazyQuery.Proofs.Engine.Bounding
import LazyQuery.Proofs.Frame.Limiting
import LazyQuery.Proofs.Engine.Renaming
import LazyQuery.Proofs.Frame.Renaming
import LazyQuery.Proofs.Engine.TypeMapping
import LazyQuery.Proofs.Frame.Likeness
import LazyQuery.Proofs.Frame.Chunking
import LazyQuery.Proofs.Frame.Emptiness
import LazyQuery.Proofs.Engine.Returning
import LazyQuery.Proofs.Frame.Returning
import LazyQuery.Proofs.Engine.KeyEquality
import LazyQuery.Proofs.Engine.Grouping
import LazyQuery.Proofs.Engine.Aggregation
import LazyQuery.Proofs.Engine.Separation
import LazyQuery.Proofs.Engine.Groupwise
import LazyQuery.Proofs.Frame.Grouping
import LazyQuery.Proofs.Context.Dispatch
import LazyQuery.Proofs.Context.Faults
import LazyQuery.Proofs.Context.Numbers
import LazyQuery.Proofs.Context.Connection
import LazyQuery.Proofs.Engine.Placing
import LazyQuery.Proofs.Engine.Presence
import LazyQuery.Proofs.Frame.Nullability
import LazyQuery.Proofs.Engine.Standing
import LazyQuery.Proofs.Frame.Predicates
import LazyQuery.Proofs.Expr.Derivation
import LazyQuery.Proofs.Expr.Substitution
import LazyQuery.Proofs.Engine.Composition
import LazyQuery.Proofs.Engine.Copying
import LazyQuery.Proofs.Frame.Collapsing
import LazyQuery.Proofs.Frame.Naming
import LazyQuery.Proofs.Engine.Slicing
import LazyQuery.Proofs.Frame.Counting
import LazyQuery.Proofs.Frame.Aliasing
import LazyQuery.Proofs.Frame.Expansion
import LazyQuery.Proofs.Expr.Alike
import LazyQuery.Proofs.Expr.Interchange
import LazyQuery.Proofs.Wire.Bounds
import LazyQuery.Proofs.Wire.Carrying
import LazyQuery.Proofs.Wire.Travelling
import LazyQuery.Proofs.Wire.Sending
import LazyQuery.Proofs.Wire.Settling
import LazyQuery.Proofs.Engine.TypeConflation
import LazyQuery.Proofs.Engine.Translation
import LazyQuery.Proofs.Frame.Labelling
import LazyQuery.Proofs.Plan.Explaining
