import LineScript.Span
import LineScript.TypeName

/-!
# Pieces of a line

A line is cut into pieces before any of them is given a meaning.  A piece is a
stretch of the line's own text, or a type tag, which stands behind a
semicolon that belongs to no piece.
-/

namespace LineScript

/-- What a semicolon means.  When annotating, `name;type` attaches a type to
a name and every other semicolon ends a statement; when terminating, every
semicolon does. -/
inductive Mode where
  | annotating
  | terminating
  deriving DecidableEq, Repr, Inhabited

namespace Piece

inductive Content where
  | text (text : String)
  | typeTag (type : TypeName)
  deriving DecidableEq, Repr, Inhabited

end Piece

structure Piece where
  content : Piece.Content
  span : Span
  deriving DecidableEq, Repr, Inhabited

namespace Piece

def shift (distance : Nat) (piece : Piece) : Piece :=
  { piece with span := piece.span.shift distance }

end Piece

end LineScript
