import QueryTree.Bindings
import QueryTree.Builder
import QueryTree.Calendar.Date
import QueryTree.Calendar.Reading
import QueryTree.Calendar.Time
import QueryTree.Clause
import QueryTree.Decimal.Binary
import QueryTree.Decimal.Layout
import QueryTree.Decimal.Reading
import QueryTree.Decimal.Shortest
import QueryTree.Error
import QueryTree.Json.Basic
import QueryTree.Json.Form
import QueryTree.Json.Number
import QueryTree.Json.Reader
import QueryTree.Keyed
import QueryTree.Naming
import QueryTree.Operator
import QueryTree.Operator.Json
import QueryTree.Options.Basic
import QueryTree.Options.Document
import QueryTree.Proofs.Bindings
import QueryTree.Proofs.Bindings.Documents
import QueryTree.Proofs.Builder
import QueryTree.Proofs.Decimal.Whole
import QueryTree.Proofs.Derived.FlatNames
import QueryTree.Proofs.Derived.Reprojection
import QueryTree.Proofs.Derived.SubSelect
import QueryTree.Proofs.Derived.Wrapping
import QueryTree.Proofs.Exposure
import QueryTree.Proofs.Expression.Null
import QueryTree.Proofs.Expression.Reader
import QueryTree.Proofs.Expression.Skeleton
import QueryTree.Proofs.Join.Outline
import QueryTree.Proofs.Join.ReadBack
import QueryTree.Proofs.Json.Reading
import QueryTree.Proofs.Keyed
import QueryTree.Proofs.Naming.Copies
import QueryTree.Proofs.Naming.Names
import QueryTree.Proofs.Naming.Numbers
import QueryTree.Proofs.Naming.Registry
import QueryTree.Proofs.Naming.Repetition
import QueryTree.Proofs.Naming.World
import QueryTree.Proofs.Naming.Writing
import QueryTree.Proofs.Render.Agreement
import QueryTree.Proofs.Render.Apart
import QueryTree.Proofs.Render.Capture
import QueryTree.Proofs.Render.Carrying
import QueryTree.Proofs.Render.Checks
import QueryTree.Proofs.Render.Conjunction
import QueryTree.Proofs.Render.Correlation
import QueryTree.Proofs.Render.Environment
import QueryTree.Proofs.Render.Failing
import QueryTree.Proofs.Render.Formatting
import QueryTree.Proofs.Render.Fragments
import QueryTree.Proofs.Render.FromNames
import QueryTree.Proofs.Render.Interference
import QueryTree.Proofs.Render.Labels
import QueryTree.Proofs.Render.Leaves
import QueryTree.Proofs.Render.Marks
import QueryTree.Proofs.Render.Nesting
import QueryTree.Proofs.Render.Outcomes
import QueryTree.Proofs.Render.Parameters
import QueryTree.Proofs.Render.Picking
import QueryTree.Proofs.Render.Quotations
import QueryTree.Proofs.Render.Rebinding
import QueryTree.Proofs.Render.Regrouping
import QueryTree.Proofs.Render.Runs
import QueryTree.Proofs.Render.Sites
import QueryTree.Proofs.Render.Steadiness
import QueryTree.Proofs.Render.Writing
import QueryTree.Proofs.Text.Figures
import QueryTree.Proofs.Text.Quotation
import QueryTree.Proofs.Text.Uppercase
import QueryTree.Proofs.Text.Words
import QueryTree.Proofs.Tree.Built
import QueryTree.Proofs.Tree.Clauses
import QueryTree.Proofs.Tree.Copy
import QueryTree.Proofs.Tree.Equality
import QueryTree.Proofs.Tree.Fields
import QueryTree.Proofs.Tree.Keys
import QueryTree.Proofs.Tree.Known
import QueryTree.Proofs.Tree.Queries
import QueryTree.Proofs.Tree.Reflexivity
import QueryTree.Proofs.Union.Basic
import QueryTree.Proofs.Union.Flattening
import QueryTree.Proofs.Union.Handles
import QueryTree.Proofs.Union.ReadBack
import QueryTree.Proofs.Union.References
import QueryTree.Proofs.Union.Sequence
import QueryTree.Proofs.Union.Width
import QueryTree.Proofs.Validation
import QueryTree.Proofs.Value.Documents
import QueryTree.Proofs.Value.Equality
import QueryTree.Proofs.Value.Literals
import QueryTree.Proofs.Value.Quotations
import QueryTree.Proofs.Verdict
import QueryTree.Render.Context
import QueryTree.Render.Scope
import QueryTree.Render.Session
import QueryTree.Render.Sql
import QueryTree.Table
import QueryTree.Text.Blank
import QueryTree.Text.Digits
import QueryTree.Text.EditDistance
import QueryTree.Text.Quoted
import QueryTree.Text.Uppercase
import QueryTree.Tree.Basic
import QueryTree.Tree.Equality
import QueryTree.Tree.Placeholders
import QueryTree.Tree.Projection
import QueryTree.Tree.References
import QueryTree.Uuid
import QueryTree.Validation
import QueryTree.Value.Basic
import QueryTree.Value.Json
