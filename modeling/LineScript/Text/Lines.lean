import LineScript.Text.Blank

/-!
# Lines of a text

A text that is read is cut behind every line feed; a text that is shown is cut
behind every character that moves to a new line.  Either cut keeps the
terminators, so the lines put together again are the text; a reader that wants
bare lines strips their ends.
-/

namespace LineScript.Text

/-- Cut a list behind every occurrence of an end mark.  No line is empty. -/
def splitAfter {α : Type} [DecidableEq α] (mark : α) : List α → List (List α)
  | [] => []
  | item :: rest =>
      if item = mark then [item] :: splitAfter mark rest
      else
        match splitAfter mark rest with
        | [] => [[item]]
        | line :: lines => (item :: line) :: lines

/-- The lines of a text put together again are the text. -/
theorem flatten_splitAfter {α : Type} [DecidableEq α] (mark : α)
    (items : List α) : (splitAfter mark items).flatten = items := by
  induction items with
  | nil => rfl
  | cons item rest ih =>
      rw [splitAfter]
      split
      · simp [ih]
      · split
        next h => simp_all
        next line lines h =>
          rw [h] at ih
          simp [← ih]

def isLineEnd (c : Char) : Bool := c == '\n' || c == '\r'

/-- A line without the line feeds and carriage returns at its end. -/
def stripLineEnd (line : List Char) : List Char :=
  dropEndWhile isLineEnd line

/-! ## Lines of a shown text -/

/-- The characters that move to a new line, from the line feed to the paragraph
separator. -/
def breaksLine (c : Char) : Bool :=
  inRanges [(0x000A, 0x000D), (0x0085, 0x0085), (0x2028, 0x2029)] c.toNat

/-- Cut a text behind every character that moves to a new line.  A carriage
return and the line feed behind it stay together. -/
def splitLines : List Char → List (List Char)
  | [] => []
  | '\r' :: '\n' :: rest => ['\r', '\n'] :: splitLines rest
  | c :: rest =>
      if breaksLine c then [c] :: splitLines rest
      else
        match splitLines rest with
        | [] => [[c]]
        | line :: lines => (c :: line) :: lines

/-- The shown lines of a text put together again are the text. -/
theorem flatten_splitLines (chars : List Char) : (splitLines chars).flatten = chars := by
  fun_induction splitLines chars with
  | case1 => rfl
  | case2 rest ih => simp [ih]
  | case3 c rest _ _ ih => simp [ih]
  | case4 c rest _ _ h ih => simp_all
  | case5 c rest _ _ line lines h ih =>
      rw [h] at ih
      simp [← ih]

end LineScript.Text
