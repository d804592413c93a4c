import Sexpand.Main
import Sexpand.Proofs.Expansion.Direct
import Sexpand.Proofs.Expansion.Scanning
import Sexpand.Proofs.Sexp.Grammar
import Sexpand.Proofs.Sexp.TokenRun
import Sexpand.Proofs.Sexp.Descent
import Sexpand.Proofs.Sexp.Printable
import Sexpand.Proofs.Sexp.RoundTrip
import Sexpand.Proofs.Expansion.InPlace
import Sexpand.Proofs.Expansion.Limited
import Sexpand.Proofs.Lexeme.Splits
import Sexpand.Proofs.Lexeme.Extent
import Sexpand.Proofs.Lexeme.Comment
import Sexpand.Proofs.Lexeme.Longest
import Sexpand.Proofs.Lexeme.Partition
import Sexpand.Proofs.Layout.Reach
import Sexpand.Proofs.Layout.Laid
import Sexpand.Proofs.Layout.Plan
import Sexpand.Proofs.Layout.Unbroken
import Sexpand.Proofs.Layout.Row
import Sexpand.Proofs.Sexp.Resumption
import Sexpand.Proofs.Expansion.Unfinished
import Sexpand.Proofs.Sexp.Nesting
import Sexpand.Proofs.Expansion.Encoded
import Sexpand.Proofs.Rendering.Course
import Sexpand.Proofs.Rendering.Relabel
import Sexpand.Proofs.Rendering.Unwrap
import Sexpand.Proofs.Text.Bracket
import Sexpand.Proofs.Rendering.Bracket
import Sexpand.Proofs.Marker.Release
import Sexpand.Proofs.Expansion.Streaming
import Sexpand.Proofs.Sexp.Finished
import Sexpand.Proofs.Sexp.Comment
import Sexpand.Proofs.Lexeme.Block
import Sexpand.Proofs.Marker.Table
import Sexpand.Proofs.Expansion.Marks
import Sexpand.Proofs.Expansion.Decoded
import Sexpand.Proofs.Sexp.Gathered
import Sexpand.Proofs.Sexp.Suspended
import Sexpand.Proofs.Sexp.Separator
