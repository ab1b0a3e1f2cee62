import SemanticLayer.Access.Inspector
import SemanticLayer.Access.Permission
import SemanticLayer.Access.Qualify
import SemanticLayer.Catalog.Basic
import SemanticLayer.Catalog.Node
import SemanticLayer.Catalog.Order
import SemanticLayer.Catalog.Reach
import SemanticLayer.Catalog.References
import SemanticLayer.CommandLine.Arguments
import SemanticLayer.CommandLine.Option
import SemanticLayer.CommandLine.Run
import SemanticLayer.Config.Settings
import SemanticLayer.Config.Toml
import SemanticLayer.Config.Value
import SemanticLayer.Config.Variables
import SemanticLayer.Dialect
import SemanticLayer.Document.Basic
import SemanticLayer.Document.Pointer
import SemanticLayer.Document.Quoted
import SemanticLayer.Error
import SemanticLayer.Grammar.DataType
import SemanticLayer.Grammar.Expression
import SemanticLayer.Grammar.Keywords
import SemanticLayer.Grammar.Kind
import SemanticLayer.Grammar.Lexeme
import SemanticLayer.Grammar.Operator
import SemanticLayer.Grammar.Reader
import SemanticLayer.Grammar.Rules
import SemanticLayer.Grammar.Selection
import SemanticLayer.Grammar.Source
import SemanticLayer.Grammar.Statements
import SemanticLayer.Grammar.Tree
import SemanticLayer.Grammar.View
import SemanticLayer.Number.Binary64
import SemanticLayer.Number.Decimal
import SemanticLayer.Number.Integer
import SemanticLayer.Planner.Demand
import SemanticLayer.Planner.Filter
import SemanticLayer.Planner.Joins
import SemanticLayer.Planner.MetricQuery
import SemanticLayer.Planner.Names
import SemanticLayer.Planner.NodeQuery
import SemanticLayer.Planner.Relation
import SemanticLayer.Sql.Expr
import SemanticLayer.Sql.Name
import SemanticLayer.Sql.Query
import SemanticLayer.Sql.Reading
import SemanticLayer.Sql.Render
import SemanticLayer.Sql.Select
import SemanticLayer.Sql.Token
import SemanticLayer.Text.CharClass
import SemanticLayer.Text.CharTables
import SemanticLayer.Text.Parts
import SemanticLayer.Text.UpperCase
import SemanticLayer.Main
import SemanticLayer.Proofs.Ancestry
import SemanticLayer.Proofs.Reachability
import SemanticLayer.Proofs.Shown
import SemanticLayer.Proofs.Charges
import SemanticLayer.Proofs.Keeping
import SemanticLayer.Proofs.Blame
import SemanticLayer.Proofs.Links
import SemanticLayer.Proofs.Losses
import SemanticLayer.Proofs.Noting
import SemanticLayer.Proofs.Nesting
import SemanticLayer.Proofs.Resolution
import SemanticLayer.Proofs.Origins
import SemanticLayer.Proofs.Physical
import SemanticLayer.Proofs.Descent
import SemanticLayer.Proofs.Failures
import SemanticLayer.Proofs.Promises
import SemanticLayer.Proofs.Sources
import SemanticLayer.Proofs.Tables
import SemanticLayer.Proofs.Routes
import SemanticLayer.Proofs.Qualifiers
import SemanticLayer.Proofs.Scoping
import SemanticLayer.Proofs.Reads
import SemanticLayer.Proofs.Everywhere
import SemanticLayer.Proofs.Positions
import SemanticLayer.Proofs.Regularity
import SemanticLayer.Proofs.Padding
import SemanticLayer.Proofs.Qualification
import SemanticLayer.Proofs.Factors
import SemanticLayer.Proofs.Verification
import SemanticLayer.Proofs.Widening
import SemanticLayer.Proofs.Places
import SemanticLayer.Proofs.Faults
import SemanticLayer.Proofs.Coverage
import SemanticLayer.Proofs.Outcomes
import SemanticLayer.Proofs.Walks
import SemanticLayer.Proofs.Demands
import SemanticLayer.Proofs.Joining
import SemanticLayer.Proofs.Naming
import SemanticLayer.Proofs.Binding
import SemanticLayer.Proofs.Values
import SemanticLayer.Proofs.Plans
import SemanticLayer.Proofs.Agreement
import SemanticLayer.Proofs.Quotation
import SemanticLayer.Proofs.Lexemes
import SemanticLayer.Proofs.Reserved
import SemanticLayer.Proofs.Readers
import SemanticLayer.Proofs.Numerals
import SemanticLayer.Proofs.Shapes
import SemanticLayer.Proofs.Heads
import SemanticLayer.Proofs.Telling
import SemanticLayer.Proofs.Retelling
import SemanticLayer.Proofs.Levels
import SemanticLayer.Proofs.Typed
import SemanticLayer.Proofs.Calls
import SemanticLayer.Proofs.Operands
import SemanticLayer.Proofs.Operations
import SemanticLayer.Proofs.Relations
import SemanticLayer.Proofs.Clauses
import SemanticLayer.Proofs.Queries
import SemanticLayer.Proofs.Legibility
import SemanticLayer.Proofs.RoundTrip
import SemanticLayer.Proofs.Chains
import SemanticLayer.Proofs.Breadth
import SemanticLayer.Proofs.Trails
import SemanticLayer.Proofs.Overlaps
import SemanticLayer.Proofs.Requests
import SemanticLayer.Proofs.Blindness
import SemanticLayer.Proofs.Choice
import SemanticLayer.Proofs.Acceptance
import SemanticLayer.Proofs.Aliases
import SemanticLayer.Proofs.Wrapping
import SemanticLayer.Proofs.Unaliasing
import SemanticLayer.Proofs.Searches
import SemanticLayer.Proofs.Touching
import SemanticLayer.Proofs.Denotation
import SemanticLayer.Proofs.Ambiguity
import SemanticLayer.Proofs.Substitution
import SemanticLayer.Proofs.Aggregates
import SemanticLayer.Proofs.Likeness
import SemanticLayer.Proofs.Owning
import SemanticLayer.Proofs.Respelling
import SemanticLayer.Proofs.Retargeting
import SemanticLayer.Proofs.Trimming
import SemanticLayer.Proofs.Repeats
import SemanticLayer.Proofs.Redeclaring
import SemanticLayer.Proofs.SelfJoins
import SemanticLayer.Proofs.Conjunctions
import SemanticLayer.Proofs.Identifiers
import SemanticLayer.Proofs.UpperCase
import SemanticLayer.Proofs.CallNames
import SemanticLayer.Proofs.Regrouping
import SemanticLayer.Proofs.Magnitudes
import SemanticLayer.Proofs.Rounding
import SemanticLayer.Proofs.Nearest
import SemanticLayer.Proofs.Shortest
import SemanticLayer.Proofs.Decimals
import SemanticLayer.Proofs.NumberLiterals
import SemanticLayer.Proofs.FilterTexts
import SemanticLayer.Proofs.Counts
import SemanticLayer.Proofs.Refusals
import SemanticLayer.Proofs.Synthesis
import SemanticLayer.Proofs.Calling
import SemanticLayer.Proofs.Recursions
import SemanticLayer.Proofs.OperatorTexts
import SemanticLayer.Proofs.Climbing
import SemanticLayer.Proofs.Concatenation
import SemanticLayer.Proofs.Scans
import SemanticLayer.Proofs.Expansion
import SemanticLayer.Proofs.CommonDimensions
import SemanticLayer.Proofs.PointerTexts
import SemanticLayer.Proofs.Preorder
import SemanticLayer.Proofs.BareWords
import SemanticLayer.Proofs.BareNames
import SemanticLayer.Proofs.Parts
import SemanticLayer.Proofs.Refilling
import SemanticLayer.Proofs.InPlace
