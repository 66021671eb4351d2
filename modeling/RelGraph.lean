import RelGraph.Api
import RelGraph.Binary64
import RelGraph.Binary64.Arithmetic
import RelGraph.Binary64.Extended
import RelGraph.Binary64.Shortest
import RelGraph.Binary64.Significant
import RelGraph.Calendar
import RelGraph.Calendar.Iso
import RelGraph.Config
import RelGraph.Conversion
import RelGraph.Decimal
import RelGraph.Digest.Sha1
import RelGraph.Exports.Exchange
import RelGraph.Exports.Placeholder
import RelGraph.Exports.Publication
import RelGraph.Exports.Resolution
import RelGraph.Exports.Store
import RelGraph.Fault
import RelGraph.Filter
import RelGraph.Graphql.Coercion
import RelGraph.Graphql.Collection
import RelGraph.Graphql.Document
import RelGraph.Graphql.Execution
import RelGraph.Graphql.Introspection
import RelGraph.Graphql.Merging
import RelGraph.Graphql.Reader
import RelGraph.Graphql.RequestRules
import RelGraph.Graphql.Scalar
import RelGraph.Graphql.Schema
import RelGraph.Graphql.SchemaRules
import RelGraph.Graphql.Scope
import RelGraph.Graphql.Token
import RelGraph.Graphql.Written
import RelGraph.Hydration
import RelGraph.Members
import RelGraph.Naming
import RelGraph.Numeral
import RelGraph.Operations
import RelGraph.Ordering
import RelGraph.Plan
import RelGraph.Schema.ColumnType
import RelGraph.Schema.Declaration
import RelGraph.Schema.Dependency
import RelGraph.Schema.Enumeration
import RelGraph.Schema.Loading
import RelGraph.Schema.Notation
import RelGraph.Schema.Registry
import RelGraph.Schema.Relationship
import RelGraph.Sdl.Assembly
import RelGraph.Sdl.Definition
import RelGraph.Selection
import RelGraph.Service
import RelGraph.Service.Interleaving
import RelGraph.Session
import RelGraph.Shape
import RelGraph.Sql.Condition
import RelGraph.Sql.Dialect
import RelGraph.Sql.Fetch
import RelGraph.Sql.Fragment
import RelGraph.Sql.Operand
import RelGraph.Sql.Write
import RelGraph.Sql.Written
import RelGraph.Store.Binding
import RelGraph.Store.Capacity
import RelGraph.Store.Cell
import RelGraph.Store.Comparison
import RelGraph.Store.Creation
import RelGraph.Store.Database
import RelGraph.Store.Estimate
import RelGraph.Store.Evaluation
import RelGraph.Store.Formula
import RelGraph.Store.Formula.Admission
import RelGraph.Store.Formula.Document
import RelGraph.Store.Formula.Evaluation
import RelGraph.Store.Formula.Function
import RelGraph.Store.Formula.Layout
import RelGraph.Store.Formula.Moment
import RelGraph.Store.Formula.Number
import RelGraph.Store.Formula.Reader
import RelGraph.Store.Formula.Token
import RelGraph.Store.Grouping
import RelGraph.Store.Planning
import RelGraph.Store.Route
import RelGraph.Store.Storage
import RelGraph.Store.Truth
import RelGraph.Text.Blank
import RelGraph.Text.Digit
import RelGraph.Text.LetterCase
import RelGraph.Text.LowerCase
import RelGraph.Text.Printable
import RelGraph.Text.Quoted
import RelGraph.Text.Resemblance
import RelGraph.Text.Template
import RelGraph.Typing
import RelGraph.Uuid
import RelGraph.Value
import RelGraph.Value.Attribute
import RelGraph.Value.Computation
import RelGraph.Value.Display
import RelGraph.Value.Json
import RelGraph.Value.Packed
import RelGraph.Value.Tagged
import RelGraph.Value.Unpacked
import RelGraph.Proofs.Fetch.Direct
import RelGraph.Proofs.Fetch.Translation
import RelGraph.Proofs.Store.Arrangement
import RelGraph.Proofs.Fetch.Sources
import RelGraph.Proofs.Fetch.Scope
import RelGraph.Proofs.Fetch.Agreement
import RelGraph.Proofs.Members
import RelGraph.Proofs.Plan.Planned
import RelGraph.Proofs.Fetch.Places
import RelGraph.Proofs.Hydration
import RelGraph.Proofs.Fetch.Presence
import RelGraph.Proofs.Text.Bytes
import RelGraph.Proofs.Text.Numeral
import RelGraph.Proofs.Uuid
import RelGraph.Proofs.Calendar
import RelGraph.Proofs.Calendar.Iso
import RelGraph.Proofs.Calendar.Written
import RelGraph.Proofs.Conversion
import RelGraph.Proofs.Conversion.RoundTrip
import RelGraph.Proofs.Conversion.Spelling
import RelGraph.Proofs.Fetch.Showing
import RelGraph.Proofs.Fetch.References
import RelGraph.Proofs.Fetch.Capture
import RelGraph.Proofs.Plan.RowKeys
import RelGraph.Proofs.Plan.Cutting
import RelGraph.Proofs.Fetch.Reading
import RelGraph.Proofs.Store.Grouping
import RelGraph.Proofs.Store.Insertion
import RelGraph.Proofs.Store.Session
import RelGraph.Proofs.Store.Keys
import RelGraph.Proofs.Store.KeyColumns
import RelGraph.Proofs.Fetch.ByKey
import RelGraph.Proofs.Operations.Blame
import RelGraph.Proofs.Operations.Validation
import RelGraph.Proofs.Operations.Reselection
import RelGraph.Proofs.Exports.Exchange
import RelGraph.Proofs.Exports.Resolution
import RelGraph.Proofs.Service.Interleaving
import RelGraph.Proofs.Service.Publishing
import RelGraph.Proofs.Filter
import RelGraph.Proofs.Filter.Rejection
import RelGraph.Proofs.Filter.Condition
import RelGraph.Proofs.Filter.Branches
import RelGraph.Proofs.Filter.Omission
import RelGraph.Proofs.Repetition
import RelGraph.Proofs.Value
import RelGraph.Proofs.Graphql.Coercion
import RelGraph.Proofs.Graphql.Fragments
import RelGraph.Proofs.Graphql.Grouping
import RelGraph.Proofs.Graphql.Collection
import RelGraph.Proofs.Graphql.Selection
import RelGraph.Proofs.Graphql.Telling
import RelGraph.Proofs.Graphql.Token
import RelGraph.Proofs.Graphql.Reader
import RelGraph.Proofs.Schema.Dependency
import RelGraph.Proofs.Schema.Registry
import RelGraph.Proofs.Schema.Registration
import RelGraph.Proofs.Schema.Relations
import RelGraph.Proofs.Api
import RelGraph.Proofs.Exports.Levels
import RelGraph.Proofs.Exports.Publication
import RelGraph.Proofs.Operations.Results
import RelGraph.Proofs.Naming
import RelGraph.Proofs.Typing
import RelGraph.Proofs.Sdl.Assembly
import RelGraph.Proofs.Sdl.Distinct
import RelGraph.Proofs.Sdl.References
import RelGraph.Proofs.Sdl.Resolvers
import RelGraph.Proofs.Plan.Levels
import RelGraph.Proofs.Plan.Names
import RelGraph.Proofs.Hydration.Shape
import RelGraph.Proofs.Sdl.Enums
import RelGraph.Proofs.Sdl.EnumNames
import RelGraph.Proofs.Sdl.EnumText
import RelGraph.Proofs.Sdl.Description
import RelGraph.Proofs.Schema.Consistency
import RelGraph.Proofs.Fetch.Lookups
import RelGraph.Proofs.Fetch.Views
import RelGraph.Proofs.Store.Changes
import RelGraph.Proofs.Store.Numbers
import RelGraph.Proofs.Operations.Writes
import RelGraph.Proofs.Sdl.FilterNames
import RelGraph.Proofs.Sdl.TableNames
import RelGraph.Proofs.Ordering
import RelGraph.Proofs.Schema.Additions
import RelGraph.Proofs.Schema.Placement
import RelGraph.Proofs.Schema.RelationOrder
import RelGraph.Proofs.Schema.Inference
import RelGraph.Proofs.Sdl.Adoption
import RelGraph.Proofs.Sdl.NonNull
import RelGraph.Proofs.Operations.FirstRow
import RelGraph.Proofs.Exports.Completion
