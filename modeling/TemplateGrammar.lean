import TemplateGrammar.Choice.Selector
import TemplateGrammar.Decimal.Numeral
import TemplateGrammar.Decimal.Tenths
import TemplateGrammar.Engine.Basic
import TemplateGrammar.Engine.Plan
import TemplateGrammar.Expansion.Direct
import TemplateGrammar.Expansion.Run
import TemplateGrammar.Log.Journal
import TemplateGrammar.Main
import TemplateGrammar.Random
import TemplateGrammar.Rules.Inspection
import TemplateGrammar.Rules.Table
import TemplateGrammar.Tags.Store
import TemplateGrammar.Template.Escape
import TemplateGrammar.Template.Parser
import TemplateGrammar.Template.Sites
import TemplateGrammar.Template.Written
import TemplateGrammar.Text.Alphanumeric
import TemplateGrammar.Text.Case
import TemplateGrammar.Text.JsonText
import TemplateGrammar.Text.Quoted
import TemplateGrammar.Text.Words
import TemplateGrammar.Tools.Command
import TemplateGrammar.Tools.Exit
import TemplateGrammar.Tools.Lint
import TemplateGrammar.Tools.Playground
import TemplateGrammar.Tools.Preview
import TemplateGrammar.Expansion.Move
import TemplateGrammar.Proofs.Expansion.Course
import TemplateGrammar.Proofs.Expansion.Simulation
import TemplateGrammar.Proofs.Expansion.Errors
import TemplateGrammar.Proofs.Expansion.Outcome
import TemplateGrammar.Proofs.Expansion.Levels
import TemplateGrammar.Proofs.Expansion.Depth
import TemplateGrammar.Proofs.Expansion.Carrying
import TemplateGrammar.Proofs.Expansion.Arguments
import TemplateGrammar.Proofs.Tags.Layers
import TemplateGrammar.Proofs.Tags.Nearest
import TemplateGrammar.Proofs.Expansion.Scoping
import TemplateGrammar.Proofs.Template.Every
import TemplateGrammar.Proofs.Expansion.Parallel
import TemplateGrammar.Proofs.Expansion.Related
import TemplateGrammar.Proofs.Expansion.Twins
import TemplateGrammar.Proofs.Engine.History
import TemplateGrammar.Proofs.Engine.CleanSlate
import TemplateGrammar.Proofs.Token.Reads
import TemplateGrammar.Proofs.Token.Pieces
import TemplateGrammar.Proofs.Template.Nesting
import TemplateGrammar.Proofs.Template.Tokens
import TemplateGrammar.Proofs.Template.Lists
import TemplateGrammar.Proofs.Template.RoundTrip
import TemplateGrammar.Proofs.Rules.Components
import TemplateGrammar.Proofs.Rules.Ranks
import TemplateGrammar.Proofs.Rules.Built
import TemplateGrammar.Proofs.Expansion.Cost
import TemplateGrammar.Proofs.Rules.Bound
import TemplateGrammar.Proofs.Engine.Recursion
import TemplateGrammar.Proofs.Expansion.Limits
import TemplateGrammar.Proofs.Engine.Limits
import TemplateGrammar.Proofs.Template.Literal
import TemplateGrammar.Proofs.Engine.Literal
import TemplateGrammar.Proofs.Expansion.Quiet
import TemplateGrammar.Proofs.Engine.Quiet
import TemplateGrammar.Proofs.Template.Script
import TemplateGrammar.Proofs.Template.Meets
import TemplateGrammar.Proofs.Template.Reading
import TemplateGrammar.Proofs.Template.Course
import TemplateGrammar.Proofs.Expansion.Append
import TemplateGrammar.Proofs.Expansion.Kept
import TemplateGrammar.Proofs.Engine.News
import TemplateGrammar.Proofs.Engine.TopTags
import TemplateGrammar.Proofs.Choice.Rounds
import TemplateGrammar.Proofs.Expansion.Watched
import TemplateGrammar.Proofs.Rules.Editions
import TemplateGrammar.Proofs.Engine.Rounds
import TemplateGrammar.Proofs.Rules.Names
import TemplateGrammar.Proofs.Choice.Shares
import TemplateGrammar.Proofs.Choice.Indices
import TemplateGrammar.Proofs.Expansion.Runaway
import TemplateGrammar.Proofs.Engine.Runaway
import TemplateGrammar.Proofs.Rules.Changes
import TemplateGrammar.Proofs.Expansion.Holding
import TemplateGrammar.Proofs.Rules.Unresolved
import TemplateGrammar.Proofs.Engine.Unresolved
import TemplateGrammar.Proofs.Expansion.Steps
import TemplateGrammar.Proofs.Expansion.Hits
import TemplateGrammar.Proofs.Rules.Defaults
import TemplateGrammar.Proofs.Engine.Hits
import TemplateGrammar.Proofs.Expansion.Concord
import TemplateGrammar.Proofs.Engine.Concord
import TemplateGrammar.Proofs.Template.Shape
import TemplateGrammar.Proofs.Files.Find
import TemplateGrammar.Proofs.Tools.Registration
import TemplateGrammar.Proofs.Engine.Listening
import TemplateGrammar.Proofs.Rules.Order
import TemplateGrammar.Proofs.Engine.Order
import TemplateGrammar.Proofs.Rules.Cycles
import TemplateGrammar.Proofs.Rules.Referable
import TemplateGrammar.Proofs.Rules.Weights
import TemplateGrammar.Proofs.Rules.Latest
import TemplateGrammar.Proofs.Tools.Walks
import TemplateGrammar.Proofs.Tools.Agreement
import TemplateGrammar.Proofs.Expansion.NewBags
import TemplateGrammar.Proofs.Engine.NewBags
import TemplateGrammar.Proofs.Engine.ReadBack
import TemplateGrammar.Proofs.Template.Lookahead
import TemplateGrammar.Proofs.Template.Diagnostic
import TemplateGrammar.Proofs.Engine.Loops
import TemplateGrammar.Proofs.Rules.Findings
import TemplateGrammar.Proofs.Tools.Strictness
import TemplateGrammar.Proofs.RuleFile.Blocks
import TemplateGrammar.Proofs.RuleFile.Written
import TemplateGrammar.Proofs.Template.Vain
import TemplateGrammar.Proofs.Template.LoneBlanks
import TemplateGrammar.Proofs.Token.Marks
import TemplateGrammar.Proofs.Token.Neighbours
import TemplateGrammar.Proofs.Template.Spaces
import TemplateGrammar.Proofs.Template.Delimiters
