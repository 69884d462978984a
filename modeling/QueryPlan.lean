import QueryPlan.Binary64.Basic
import QueryPlan.Binary64.Decimal
import QueryPlan.Binary64.Shortest
import QueryPlan.Binary64.Text
import QueryPlan.Bridge
import QueryPlan.Catalog
import QueryPlan.Catalog.Describe
import QueryPlan.Catalog.Json
import QueryPlan.Cli.Arguments
import QueryPlan.Cli.Report
import QueryPlan.Cli.Run
import QueryPlan.Compiler
import QueryPlan.Compiler.Describe
import QueryPlan.Compiler.Json
import QueryPlan.Digest
import QueryPlan.Draft.Basic
import QueryPlan.Draft.Combine
import QueryPlan.Draft.Describe
import QueryPlan.Error
import QueryPlan.Expr.Basic
import QueryPlan.Expr.Json
import QueryPlan.Expr.Substitute
import QueryPlan.Expr.Typing
import QueryPlan.Interner
import QueryPlan.Json.Basic
import QueryPlan.Json.Parser
import QueryPlan.Json.Printer
import QueryPlan.Json.Read
import QueryPlan.Lowering.Pattern
import QueryPlan.Lowering.Projection
import QueryPlan.Lowering.Query
import QueryPlan.Lowering.Scalar
import QueryPlan.Lowering.Write
import QueryPlan.Main
import QueryPlan.Model
import QueryPlan.Plan.Basic
import QueryPlan.Plan.Build
import QueryPlan.Plan.Json
import QueryPlan.Plan.Rebuild
import QueryPlan.Plan.Shelf
import QueryPlan.Plan.Text
import QueryPlan.Query.Clause
import QueryPlan.Query.Expression
import QueryPlan.Query.Json
import QueryPlan.Schema
import QueryPlan.Text.CharSet
import QueryPlan.Text.Columns
import QueryPlan.Text.Emoji
import QueryPlan.Text.Quoted
import QueryPlan.Text.Table
import QueryPlan.Text.Unprintable
import QueryPlan.Text.Width
import QueryPlan.Ty
import QueryPlan.Ty.Json
import QueryPlan.Value.Basic
import QueryPlan.Value.Equal
import QueryPlan.Value.Json
import QueryPlan.Value.Text
import QueryPlan.Proofs.Outcome
import QueryPlan.Proofs.Plan.Node
import QueryPlan.Proofs.Plan.Validity
import QueryPlan.Proofs.Draft.Outcome
import QueryPlan.Proofs.Lowering.Direct
import QueryPlan.Proofs.Lowering.Simulation
import QueryPlan.Proofs.Expr.Failure
import QueryPlan.Proofs.Compiler.Outcome
import QueryPlan.Proofs.Compiler.Writes
import QueryPlan.Proofs.Compiler.Transparency
import QueryPlan.Proofs.Expr.WellTyped
import QueryPlan.Proofs.Plan.WellFormed
import QueryPlan.Proofs.Lowering.Pattern
import QueryPlan.Proofs.Lowering.Progress
import QueryPlan.Proofs.Compiler.Matches
import QueryPlan.Proofs.Lowering.Create
import QueryPlan.Proofs.Compiler.Creation
import QueryPlan.Proofs.Interner
import QueryPlan.Proofs.Lowering.Models
import QueryPlan.Proofs.Compiler.Models
import QueryPlan.Proofs.Compiler.Delivery
import QueryPlan.Proofs.Expr.Positions
import QueryPlan.Proofs.Compiler.Positions
import QueryPlan.Proofs.Schema
import QueryPlan.Proofs.Expr.Scoping
import QueryPlan.Proofs.Lowering.Projection
import QueryPlan.Proofs.Lowering.Sorting
import QueryPlan.Proofs.Lists
import QueryPlan.Proofs.Compiler.Endpoints
import QueryPlan.Proofs.Lowering.Updates
import QueryPlan.Proofs.Lowering.Grouping
import QueryPlan.Proofs.Lowering.Naming
import QueryPlan.Proofs.Expr.Aggregates
import QueryPlan.Proofs.Compiler.Aggregates
import QueryPlan.Proofs.Expr.TypeRules
import QueryPlan.Proofs.Expr.Substitution
import QueryPlan.Proofs.Expr.Sharing
import QueryPlan.Proofs.Expr.Renumbering
import QueryPlan.Proofs.Plan.Replacement
import QueryPlan.Proofs.Compiler.Emptiness
import QueryPlan.Proofs.Ty.Order
import QueryPlan.Proofs.Expr.CommonTypes
import QueryPlan.Proofs.Expr.Dynamic
import QueryPlan.Proofs.Lowering.Unwinding
import QueryPlan.Proofs.Plan.Reparenting
import QueryPlan.Proofs.Expr.TextTests
import QueryPlan.Proofs.Lowering.PathTypes
import QueryPlan.Proofs.Catalog.Additions
import QueryPlan.Proofs.Compiler.StandIns
import QueryPlan.Proofs.Compiler.Keys
import QueryPlan.Proofs.Draft.Combining
import QueryPlan.Proofs.Plan.Shelf
import QueryPlan.Proofs.Text.Legible
import QueryPlan.Proofs.Value.Legible
import QueryPlan.Proofs.Expr.Legible
import QueryPlan.Proofs.Plan.Payloads
import QueryPlan.Proofs.Plan.Fingerprints
import QueryPlan.Proofs.Lowering.PlainNames
import QueryPlan.Proofs.Lowering.Legible
import QueryPlan.Proofs.Compiler.PlainRequests
