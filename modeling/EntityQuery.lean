import EntityQuery.Catalog.Entity
import EntityQuery.Catalog.Model
import EntityQuery.Catalog.Naming
import EntityQuery.Criteria.Filter
import EntityQuery.Criteria.Operand
import EntityQuery.Document.Basic
import EntityQuery.Document.Describe
import EntityQuery.Document.Literal
import EntityQuery.Document.Reply
import EntityQuery.Document.Request
import EntityQuery.Document.Token
import EntityQuery.Json.Basic
import EntityQuery.Json.Read
import EntityQuery.Json.Skip
import EntityQuery.Json.Text
import EntityQuery.Keyed
import EntityQuery.Main
import EntityQuery.Notated
import EntityQuery.Number.Binary64
import EntityQuery.Number.DecimalText
import EntityQuery.Number.IntegerText
import EntityQuery.Number.Shortest
import EntityQuery.Planning.Draft
import EntityQuery.Planning.Predicate
import EntityQuery.Planning.Root
import EntityQuery.Planning.Selection
import EntityQuery.Proofs.Admissible
import EntityQuery.Proofs.Advertised
import EntityQuery.Proofs.Agreement
import EntityQuery.Proofs.Aligned
import EntityQuery.Proofs.Apart
import EntityQuery.Proofs.Appended
import EntityQuery.Proofs.Arranged
import EntityQuery.Proofs.Association
import EntityQuery.Proofs.Bound
import EntityQuery.Proofs.Built
import EntityQuery.Proofs.Candidates
import EntityQuery.Proofs.Capped
import EntityQuery.Proofs.Chronology
import EntityQuery.Proofs.Columns
import EntityQuery.Proofs.Condition
import EntityQuery.Proofs.Contained
import EntityQuery.Proofs.Criterion
import EntityQuery.Proofs.Dated
import EntityQuery.Proofs.Defaults
import EntityQuery.Proofs.Defined
import EntityQuery.Proofs.Distinct
import EntityQuery.Proofs.Draft
import EntityQuery.Proofs.Escaped
import EntityQuery.Proofs.Exact
import EntityQuery.Proofs.Exchange
import EntityQuery.Proofs.Filled
import EntityQuery.Proofs.Found
import EntityQuery.Proofs.Groups
import EntityQuery.Proofs.Indirection
import EntityQuery.Proofs.Integers
import EntityQuery.Proofs.Joined
import EntityQuery.Proofs.Keyed
import EntityQuery.Proofs.Legible
import EntityQuery.Proofs.Lenient
import EntityQuery.Proofs.Lexeme
import EntityQuery.Proofs.Limit
import EntityQuery.Proofs.Magnitude
import EntityQuery.Proofs.Meaning
import EntityQuery.Proofs.Named
import EntityQuery.Proofs.Navigation
import EntityQuery.Proofs.Nested
import EntityQuery.Proofs.Nulls
import EntityQuery.Proofs.Numerals
import EntityQuery.Proofs.Ordered
import EntityQuery.Proofs.Orderly
import EntityQuery.Proofs.Outcome
import EntityQuery.Proofs.Overflow
import EntityQuery.Proofs.Pattern
import EntityQuery.Proofs.Pieces
import EntityQuery.Proofs.Plan
import EntityQuery.Proofs.Position
import EntityQuery.Proofs.Precedence
import EntityQuery.Proofs.Preorder
import EntityQuery.Proofs.Printing
import EntityQuery.Proofs.Quoting
import EntityQuery.Proofs.Reached
import EntityQuery.Proofs.Reading
import EntityQuery.Proofs.Reads
import EntityQuery.Proofs.Refusal
import EntityQuery.Proofs.Reordering
import EntityQuery.Proofs.Repeated
import EntityQuery.Proofs.Reread
import EntityQuery.Proofs.Returned
import EntityQuery.Proofs.Roots
import EntityQuery.Proofs.Rounded
import EntityQuery.Proofs.Rows
import EntityQuery.Proofs.Scope
import EntityQuery.Proofs.Shallow
import EntityQuery.Proofs.Shown
import EntityQuery.Proofs.Sorted
import EntityQuery.Proofs.Sought
import EntityQuery.Proofs.Sound
import EntityQuery.Proofs.Spelling
import EntityQuery.Proofs.Stable
import EntityQuery.Proofs.Statement
import EntityQuery.Proofs.Step
import EntityQuery.Proofs.Stored
import EntityQuery.Proofs.Strings
import EntityQuery.Proofs.Substitution
import EntityQuery.Proofs.Substring
import EntityQuery.Proofs.Template
import EntityQuery.Proofs.Tested
import EntityQuery.Proofs.Timed
import EntityQuery.Proofs.Truth
import EntityQuery.Proofs.Unmatched
import EntityQuery.Proofs.Verdict
import EntityQuery.Proofs.WellFormed
import EntityQuery.Proofs.Where
import EntityQuery.Proofs.Written
import EntityQuery.Relation.Expr
import EntityQuery.Relation.Query
import EntityQuery.Relation.Wire
import EntityQuery.Response.Execution
import EntityQuery.Response.Reshape
import EntityQuery.Scalar.Binding
import EntityQuery.Scalar.Calendar
import EntityQuery.Scalar.Coercion
import EntityQuery.Scalar.Kind
import EntityQuery.Schema.Basic
import EntityQuery.Schema.Build
import EntityQuery.Schema.Sdl
import EntityQuery.Server.Arguments
import EntityQuery.Server.Boot
import EntityQuery.Server.Config
import EntityQuery.Server.Directory
import EntityQuery.Server.Http
import EntityQuery.Server.MediaType
import EntityQuery.Server.Request
import EntityQuery.Sql.Quote
import EntityQuery.Sql.Render
import EntityQuery.Sql.Substitute
import EntityQuery.Store.Compare
import EntityQuery.Store.Eval
import EntityQuery.Store.Like
import EntityQuery.Store.Sort
import EntityQuery.Store.Tables
import EntityQuery.Text.Alphanumeric
import EntityQuery.Text.Blank
import EntityQuery.Yaml.Basic
import EntityQuery.Yaml.Read
import EntityQuery.Yaml.Scalar
import EntityQuery.Yaml.Token
