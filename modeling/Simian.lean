import Simian.Main
import Simian.Proofs.Eval.Escape
import Simian.Proofs.Eval.HashLiteral
import Simian.Proofs.Expansion.ErrorFree
import Simian.Proofs.Session.Phase
import Simian.Proofs.Session.Printable
import Simian.Proofs.Session.Spans
import Simian.Proofs.Token.Cutting
import Simian.Proofs.Parser.Grammar
import Simian.Proofs.Parser.Conservation
import Simian.Proofs.Eval.Confinement
import Simian.Proofs.Session.MacroScope
import Simian.Proofs.Expansion.Position
import Simian.Proofs.Expansion.Template
import Simian.Proofs.Parser.Locality
import Simian.Proofs.Parser.Ending
import Simian.Proofs.Parser.Containment
import Simian.Proofs.Parser.Layout
import Simian.Text.Feed
import Simian.Token.Scanner
import Simian.Proofs.Token.Scanner
import Simian.Proofs.Parser.Stream
import Simian.Proofs.Source.Reading
import Simian.Proofs.Text.Utf8
import Simian.Proofs.Token.Order
import Simian.Proofs.Tree.Extent
import Simian.Proofs.Parser.Nesting
import Simian.Proofs.Parser.ErrorPlaces
import Simian.Proofs.Value.Data
import Simian.Proofs.Eval.Unquote
import Simian.Proofs.Eval.Arithmetic
import Simian.Proofs.Tree.Children
import Simian.Proofs.Tree.Visits
import Simian.Proofs.Eval.HashOrder
import Simian.Proofs.Session.Hoisting
import Simian.Proofs.Expansion.Untouched
import Simian.Proofs.Parser.IntegerLiteral
import Simian.Proofs.Store.History
import Simian.Proofs.Session.Identity
import Simian.Proofs.Eval.MapReduce
