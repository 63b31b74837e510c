import LineScript.Text.Encoding
import LineScript.Text.Lines

/-!
# Reads

A session asks for one line after the other.  Each time it gets a line, the end
of the input, or a failure.  What a text or a sequence of bytes delivers is a
list of reads; when the list is used up, the input has ended.
-/

namespace LineScript

inductive Read where
  | line (text : String)
  | endOfInput
  | failure (reason : String)
  deriving DecidableEq, Repr

namespace Read

open LineScript.Text

/-- A line without its terminator. -/
def bare (line : String) : String := String.ofList (stripLineEnd line.toList)

def stripped : Read → Read
  | .line text => .line (bare text)
  | .endOfInput => .endOfInput
  | .failure reason => .failure reason

/-- The lines of a text, without their terminators. -/
def ofText (text : String) : List Read :=
  (splitAfter '\n' text.toList).map fun line => .line (String.ofList (stripLineEnd line))

def invalidEncoding : String := "stream did not contain valid UTF-8"

/-- The read of the bytes of one line.  Bytes that encode no text fail. -/
def ofLineBytes (bytes : List UInt8) : Read :=
  match decode? bytes with
  | some text => .line text
  | none => .failure invalidEncoding

/-- The lines of a sequence of bytes, with their terminators.  A line that fails
does not affect the others. -/
def ofBytes (bytes : List UInt8) : List Read :=
  (splitAfter 10 bytes).map ofLineBytes

end Read

end LineScript
