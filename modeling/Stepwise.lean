import Stepwise.Main
import Stepwise.Proofs.Structure.Check
import Stepwise.Proofs.Token.RoundTrip
import Stepwise.Proofs.Expression.Coherent
import Stepwise.Proofs.Expression.Schedule
import Stepwise.Proofs.Session.Lifecycle
import Stepwise.Proofs.Session.Fields
import Stepwise.Proofs.Binary64.Text
import Stepwise.Proofs.Expression.Agree
import Stepwise.Proofs.Expression.SameTokens
import Stepwise.Proofs.Expression.Reparse
import Stepwise.Proofs.Token.Places
import Stepwise.Proofs.Expression.Substitute
import Stepwise.Proofs.Binary64.Exact
import Stepwise.Proofs.Json.PlainNumber
import Stepwise.Proofs.Expression.BoundNumber
import Stepwise.Proofs.Block.Selected
import Stepwise.Proofs.Reduction.Region
import Stepwise.Proofs.Reduction.InPlace
import Stepwise.Proofs.CommandLine.Answers
import Stepwise.Proofs.Token.Pieces
import Stepwise.Proofs.Token.Blanks
import Stepwise.Proofs.Token.Content
import Stepwise.Proofs.Token.Bound
import Stepwise.Proofs.Structure.BoundNumbers
import Stepwise.Proofs.Binary64.Rounds
import Stepwise.Proofs.Decimal.Value
import Stepwise.Proofs.Json.Document
import Stepwise.Proofs.Bindings.LastValue
import Stepwise.Proofs.Lexeme.Partition
import Stepwise.Proofs.Structure.Unbalanced
import Stepwise.Proofs.Decimal.Minimal
import Stepwise.Proofs.Json.Record
