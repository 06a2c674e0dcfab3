import PlZero.Construct
import PlZero.Diagnostic.Log
import PlZero.Json
import PlZero.Main
import PlZero.Node.Outline
import PlZero.Node.Record
import PlZero.Node.Written
import PlZero.Parser.Session
import PlZero.Token.Passes
import PlZero.Tree.Anchors
import PlZero.Tree.Equality
import PlZero.Proofs.RoundTrip
import PlZero.Proofs.Silence
import PlZero.Proofs.Repair
import PlZero.Proofs.Sessions
import PlZero.Proofs.Lexing.Spans
import PlZero.Proofs.Nesting.Cutoff
import PlZero.Proofs.SourceOrder
import PlZero.Proofs.Renaming
import PlZero.Proofs.Anchoring.Order
import PlZero.Proofs.Printing.Faithful
import PlZero.Proofs.Rereading
import PlZero.Proofs.Lexing.Spacing
import PlZero.Proofs.Lexing.Cutting
import PlZero.Proofs.HardStop
import PlZero.Proofs.Saturation
import PlZero.Proofs.Lexing.Interleaving
import PlZero.Proofs.Declarations
import PlZero.Proofs.Cascades
import PlZero.Proofs.Report.Lines
import PlZero.Proofs.Sections
import PlZero.Proofs.Literals
import PlZero.Proofs.Printing.Layout
import PlZero.Proofs.Printing.Misplaced
import PlZero.Proofs.Parser.Loops
import PlZero.Proofs.Progress
