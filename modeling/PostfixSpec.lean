import PostfixSpec.Leaf
import PostfixSpec.Op
import PostfixSpec.Op.Replay
import PostfixSpec.Buffer
import PostfixSpec.Encoding
import PostfixSpec.Specification
import PostfixSpec.Evaluator
import PostfixSpec.Evaluator.Collect
import PostfixSpec.Evaluator.FunctionalText
import PostfixSpec.Evaluator.Recorder
import PostfixSpec.Evaluator.Constants
import PostfixSpec.Evaluator.Description
import PostfixSpec.Examples
import PostfixSpec.Expr
import PostfixSpec.Trace
import PostfixSpec.Console
import PostfixSpec.Formula.Token
import PostfixSpec.Formula.Scan
import PostfixSpec.Formula.Grammar
import PostfixSpec.Formula.Parser
import PostfixSpec.Report
import PostfixSpec.Text.Character
import PostfixSpec.Text.Literal
import PostfixSpec.Text.Utf8
import PostfixSpec.File.Path
import PostfixSpec.File.SystemError
import PostfixSpec.File.Tree
import PostfixSpec.Property
import PostfixSpec.CommandLine.Switch
import PostfixSpec.CommandLine.Arguments
import PostfixSpec.CommandLine.Help
import PostfixSpec.CommandLine.Run
import PostfixSpec.Main
import PostfixSpec.Proofs.List.Traversal
import PostfixSpec.Proofs.Expr.Induction
import PostfixSpec.Proofs.Expr.Listing
import PostfixSpec.Proofs.Expr.Depth
import PostfixSpec.Proofs.Expr.Binary
import PostfixSpec.Proofs.Evaluator.Operands
import PostfixSpec.Proofs.Evaluator.Machine
import PostfixSpec.Proofs.Evaluator.Fold
import PostfixSpec.Proofs.Evaluator.Call
import PostfixSpec.Proofs.Evaluator.Outcome
import PostfixSpec.Proofs.Evaluator.Interruption
import PostfixSpec.Proofs.Evaluator.Truth
import PostfixSpec.Proofs.Evaluator.Height
import PostfixSpec.Proofs.Evaluator.Simulation
import PostfixSpec.Proofs.Evaluator.Constants
import PostfixSpec.Proofs.Expr.Graft
import PostfixSpec.Proofs.Expr.Shape
import PostfixSpec.Proofs.Specification.Composition
import PostfixSpec.Proofs.Specification.Construction
import PostfixSpec.Proofs.Specification.Equality
import PostfixSpec.Proofs.Specification.Canonical
import PostfixSpec.Proofs.Specification.History
import PostfixSpec.Proofs.Specification.Concatenation
import PostfixSpec.Proofs.Specification.Algebra
import PostfixSpec.Proofs.Formula.Reading
import PostfixSpec.Proofs.Formula.Viable
import PostfixSpec.Proofs.Formula.Spelling
import PostfixSpec.Proofs.Formula.Acceptance
import PostfixSpec.Proofs.Formula.Failure
import PostfixSpec.Proofs.Formula.Derivation
import PostfixSpec.Proofs.Formula.RoundTrip
import PostfixSpec.Proofs.Formula.Grouping
import PostfixSpec.Proofs.Formula.Substitution
import PostfixSpec.Proofs.Text.Utf8
import PostfixSpec.Proofs.Formula.Respelling
import PostfixSpec.Proofs.Property.Symbols
import PostfixSpec.Proofs.Formula.Display
import PostfixSpec.Proofs.Formula.Meaning
import PostfixSpec.Proofs.Console.Quiet
import PostfixSpec.Proofs.CommandLine.Conclusion
import PostfixSpec.Proofs.CommandLine.Outcome
import PostfixSpec.Proofs.CommandLine.Groups
import PostfixSpec.Proofs.CommandLine.Order
import PostfixSpec.Proofs.CommandLine.Relevance
import PostfixSpec.Proofs.CommandLine.Sources
import PostfixSpec.Proofs.Console.Lines
import PostfixSpec.Proofs.CommandLine.Verbosity
import PostfixSpec.Proofs.Formula.Layout
import PostfixSpec.Proofs.Formula.Conservation
import PostfixSpec.Proofs.Property.Content
import PostfixSpec.Proofs.Console.Actions
import PostfixSpec.Proofs.Expr.Subexpression
import PostfixSpec.Proofs.Formula.Trace
