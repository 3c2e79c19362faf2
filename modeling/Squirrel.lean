import Squirrel.Kind
import Squirrel.TokenSet
import Squirrel.Text.Quoted
import Squirrel.Literal.Text
import Squirrel.Literal.Integer
import Squirrel.Literal.Real
import Squirrel.Token.Pattern
import Squirrel.Token.Extent
import Squirrel.Diagnostic
import Squirrel.Token
import Squirrel.Position
import Squirrel.Tree
import Squirrel.Grammar.Recovery
import Squirrel.Grammar.Statement
import Squirrel.Script
import Squirrel.View.Outline
import Squirrel.View.Render
import Squirrel.Diagnostic.Snippet
import Squirrel.Proofs.Grammar.Complete
import Squirrel.Proofs.Grammar.Grouping
import Squirrel.Proofs.Grammar.Skeleton
import Squirrel.Proofs.Grammar.LineBreak
import Squirrel.Proofs.Grammar.Nesting
import Squirrel.Proofs.Render.RoundTrip
import Squirrel.Proofs.Render.Reread
import Squirrel.Proofs.Grammar.Progress
import Squirrel.Proofs.Parse.Limits
import Squirrel.Proofs.Render.Literal
import Squirrel.Proofs.Grammar.Front
import Squirrel.Proofs.Token.Suffix
import Squirrel.Proofs.Token.Garbage
import Squirrel.Proofs.Diagnostic.Sorted
import Squirrel.Proofs.Diagnostic.Filtered
import Squirrel.Proofs.Grammar.Repair
import Squirrel.Proofs.Grammar.Sides
import Squirrel.Proofs.Token.Longest
import Squirrel.Proofs.Grammar.Explained
import Squirrel.Proofs.Grammar.Rejected
import Squirrel.Proofs.Grammar.Numeral
import Squirrel.Proofs.Grammar.Exact
import Squirrel.Proofs.Grammar.Supply
import Squirrel.Proofs.Grammar.Static
import Squirrel.Proofs.Grammar.Delimiter
import Squirrel.Proofs.View.Field
import Squirrel.Proofs.Grammar.Ending
import Squirrel.Proofs.Grammar.Attachment
import Squirrel.Proofs.Token.Alone
import Squirrel.Proofs.Literal.Verbatim
import Squirrel.Proofs.Literal.Slice
import Squirrel.Proofs.Position.RoundTrip
import Squirrel.Proofs.Tree.Listing
import Squirrel.Proofs.Token.FirstEnd
import Squirrel.Proofs.Token.SingleQuote
import Squirrel.Proofs.Grammar.Restored
