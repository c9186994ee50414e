import GnLang.Cursor
import GnLang.Proofs.Descent.Rules
import GnLang.Proofs.Grammar.Locality
import GnLang.Main
import GnLang.Proofs.Agreement
import GnLang.Proofs.Calls
import GnLang.Proofs.Command.Invocation
import GnLang.Proofs.Exactness
import GnLang.Proofs.Format.RoundTrip
import GnLang.Proofs.Limits
import GnLang.Proofs.Lossless
import GnLang.Proofs.Relayout
import GnLang.Proofs.Session.Prompt
import GnLang.Proofs.Session.Standing
import GnLang.Proofs.Totality
import GnLang.Proofs.Unfinished
import GnLang.Proofs.Scan.Beginnings
import GnLang.Proofs.Earliest
import GnLang.Proofs.Grammar.Moved
import GnLang.Proofs.Format.LineEnds
import GnLang.Proofs.Rereading
import GnLang.Proofs.Json.Grammar
import GnLang.Proofs.Json.Reader
import GnLang.Proofs.Json.Written
import GnLang.Proofs.Format.Json
import GnLang.Proofs.Label
import GnLang.Proofs.Tree.Fields
import GnLang.Proofs.Format.Nesting
import GnLang.Proofs.ReadingOrder
import GnLang.Proofs.Scan.Segments
import GnLang.Proofs.Integers
import GnLang.Proofs.Returns
import GnLang.Proofs.Contexts
import GnLang.Proofs.Visits
import GnLang.Proofs.Format.Histories
import GnLang.Proofs.Format.Chains
import GnLang.Proofs.Json.Points
