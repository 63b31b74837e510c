import LineScript.Text.Blank
import LineScript.Text.Width.Zero
import LineScript.Text.Width.Wide
import LineScript.Text.Width
import LineScript.Text.Lines
import LineScript.Text.Encoding
import LineScript.Numeral.Power
import LineScript.Numeral.Integer
import LineScript.Binary64
import LineScript.Binary64.Nearest
import LineScript.Binary64.Arithmetic
import LineScript.Binary64.Reading
import LineScript.Binary64.Writing
import LineScript.Text.Similarity
import LineScript.Text.Escape
import LineScript.Span
import LineScript.TypeName
import LineScript.Value
import LineScript.Identifier
import LineScript.Piece
import LineScript.Piece.Scan
import LineScript.Token
import LineScript.Token.Classify
import LineScript.Diagnostic
import LineScript.Statement
import LineScript.Statement.Refusal
import LineScript.Statement.OfTokens
import LineScript.Scope
import LineScript.Evaluation
import LineScript.Interpretation
import LineScript.Report.Fragment
import LineScript.Report.Place
import LineScript.Report.Excerpt
import LineScript.Report
import LineScript.Session.Read
import LineScript.Session.Console
import LineScript.Session.Turn
import LineScript.Session
import LineScript.CommandLine.Switch
import LineScript.CommandLine.Misuse
import LineScript.CommandLine.Invocation
import LineScript.CommandLine.Folder
import LineScript.CommandLine
import LineScript.Main
import LineScript.Proofs.Grammar
import LineScript.Proofs.Grammar.Reading
import LineScript.Proofs.Grammar.Viability
import LineScript.Proofs.Cut
import LineScript.Proofs.Tiling
import LineScript.Proofs.Session.Unlimited
import LineScript.Proofs.Session.Transcript
import LineScript.Proofs.Session.Limits
import LineScript.Proofs.Session.LineEnds
import LineScript.Proofs.Evaluation
import LineScript.Proofs.History
import LineScript.Proofs.Permanence
import LineScript.Proofs.Locality
import LineScript.Proofs.Replay
import LineScript.Proofs.Word
import LineScript.Proofs.Seam
import LineScript.Proofs.Seam.OpenMark
import LineScript.Proofs.Seam.Marks
import LineScript.Proofs.Relocation
import LineScript.Proofs.Relocation.Columns
import LineScript.Proofs.Joining
import LineScript.Proofs.Fusion
import LineScript.Proofs.Spelling
import LineScript.Proofs.ReadBack
import LineScript.Proofs.Legibility
import LineScript.Proofs.Rebuilding
import LineScript.Proofs.Reloading
import LineScript.Proofs.Pointing
import LineScript.Proofs.Pointing.Framing
import LineScript.Proofs.Spacing
import LineScript.Proofs.Spacing.Trailing
import LineScript.Proofs.Terminator
import LineScript.Proofs.Cursor
import LineScript.Proofs.Cursor.Scanner
import LineScript.Proofs.Cursor.Reader
import LineScript.Proofs.Cursor.Pipeline
import LineScript.Proofs.Forms
import LineScript.Proofs.Munch
import LineScript.Proofs.Startup
import LineScript.Proofs.Integers
import LineScript.Proofs.Literals
import LineScript.Proofs.Classes
import LineScript.Proofs.Fractions
import LineScript.Proofs.Painting
