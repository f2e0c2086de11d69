import Dialect.Catalog
import Dialect.Parse
import Dialect.Prediction.Overlap
import Dialect.Tree.Checked
import Dialect.Proofs.Grammar.Placement
import Dialect.Proofs.Grammar.Reachable
import Dialect.Proofs.Grammar.WellFormed
import Dialect.Proofs.Grammar.Entry
import Dialect.Proofs.Grammar.Height
import Dialect.Proofs.Grammar.Validity
import Dialect.Proofs.Prediction.FirstSets
import Dialect.Proofs.Prediction.Answers
import Dialect.Proofs.Prediction.Following
import Dialect.Proofs.Parsing.Moves
import Dialect.Proofs.Matching.Contract
import Dialect.Proofs.Matching.Record
import Dialect.Proofs.Matching.Expectation
import Dialect.Proofs.Matching.Leaf
import Dialect.Proofs.Matching.Sequence
import Dialect.Proofs.Matching.Iteration
import Dialect.Proofs.Matching.Wrapper
import Dialect.Proofs.Matching.OneOf
import Dialect.Proofs.Matching.Qualified
import Dialect.Proofs.Matching.Beginning
import Dialect.Proofs.Matching.Eager
import Dialect.Proofs.Matching.Rejection
import Dialect.Proofs.Parse
import Dialect.Proofs.Conclusion
import Dialect.Proofs.Acceptance
import Dialect.Proofs.Accounting
import Dialect.Proofs.Sharing
import Dialect.Proofs.Safety
import Dialect.Proofs.Grammar.Layout
import Dialect.Proofs.Tracking.Basic
import Dialect.Proofs.Tracking.Leaf
import Dialect.Proofs.Tracking.Parts
import Dialect.Proofs.Tracking.Composite
import Dialect.Proofs.Tracking.Choice
import Dialect.Proofs.Tracking.Element
import Dialect.Proofs.Recovery
import Dialect.Proofs.Nesting
import Dialect.Proofs.Losslessness
import Dialect.Proofs.RuleOrder
import Dialect.Proofs.AlternativeOrder
import Dialect.Proofs.Filtering
import Dialect.Proofs.SharedCatalog
import Dialect.Proofs.CatalogKeys
import Dialect.Proofs.Matching.Best
import Dialect.Proofs.Matching.Selection
import Dialect.Proofs.Matching.Naming
import Dialect.Proofs.LongestName
import Dialect.Proofs.Matching.Succession
import Dialect.Proofs.Matching.Route
import Dialect.Proofs.Prediction.Bracketing
import Dialect.Proofs.LookAhead
import Dialect.Proofs.Tree.Reindexing
import Dialect.Proofs.Trivia
import Dialect.Proofs.Grammar.Preorder
import Dialect.Proofs.Grammar.Retrieval
import Dialect.Proofs.DepthLimit
import Dialect.Proofs.Prediction.SinglePass
import Dialect.Proofs.Ambiguity
import Dialect.Proofs.Enclosing.Extension
import Dialect.Proofs.Enclosing.Basic
import Dialect.Proofs.Enclosing.Parts
import Dialect.Proofs.Enclosing.Element
import Dialect.Proofs.Matching.Clean
import Dialect.Proofs.Matching.Delimiters
import Dialect.Proofs.Matching.Counting
import Dialect.Proofs.Balance
import Dialect.Proofs.InactiveContent
import Dialect.Proofs.Enclosing.Rules
import Dialect.Proofs.OptionalDelimiters
import Dialect.Proofs.Rollback
import Dialect.Proofs.Resolution
import Dialect.Proofs.SeparatedLists
import Dialect.Proofs.ElementNames
