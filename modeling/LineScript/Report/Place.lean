import LineScript.Text.Lines

/-!
# Places

An offset into a text counts characters.  Its place is the line it lies on and
the column there, both counted from zero.
-/

namespace LineScript.Report

structure Place where
  line : Nat
  column : Nat
  deriving DecidableEq, Repr

/-- The place of an offset.  An offset behind the text lies on its last line. -/
def place : (lines : List (List Char)) → (offset : Nat) → Place
  | line :: next :: rest, offset =>
      if offset < line.length then ⟨0, offset⟩
      else
        match place (next :: rest) (offset - line.length) with
        | ⟨number, column⟩ => ⟨number + 1, column⟩
  | _, offset => ⟨0, offset⟩

end LineScript.Report
