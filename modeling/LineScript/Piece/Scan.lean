import LineScript.Identifier
import LineScript.Piece
import LineScript.Text.Blank

/-!
# Cutting a line into pieces

Blanks separate pieces.  Elsewhere the next piece is decided by the characters
ahead and by the run, if any, that ends directly before them: a minus sign
touching a run is a symbol, and a semicolon touching a run that is a name may
announce a type.  Every character of a line lies in exactly one piece, is a
blank, or is the semicolon of a type tag.
-/

namespace LineScript.Piece

open LineScript.Text

/-! ## Characters with a meaning of their own -/

def quoteMarks : List Char := ['"', '\'']

def isQuote (c : Char) : Bool := quoteMarks.contains c

def symbols : List Char :=
  ['(', ')', '{', '}', '[', ']', ',', ':', '.', '+', '-', '*', '/', '%', '=', '<', '>', '!']

def isSymbol (c : Char) : Bool := symbols.contains c

/-- The operators of two and three characters, the longer ones first, so that
the first that fits is the longest. -/
def operators : List (List Char) :=
  [['=', '=', '='], ['!', '=', '='], ['=', '='], ['!', '='], ['<', '='], ['>', '='],
   ['&', '&'], ['|', '|']]

example : operators.length = 8 ∧ symbols.length = 18 := by decide

/-- The longest operator that a text begins with. -/
def operator? (chars : List Char) : Option (List Char) :=
  operators.find? fun operator => operator.isPrefixOf chars

def beginsWithDigit : List Char → Bool
  | [] => false
  | c :: _ => c.isDigit

/-! ## Lengths of pieces -/

def endsRun (c : Char) (after : List Char) : Bool :=
  isBlank c || isQuote c || c == ';' || isSymbol c || (operator? (c :: after)).isSome

/-- How many characters continue a run.  `whole` tells whether the run so far
is an integer numeral, which a point and a digit turn into a fraction. -/
def runLength (whole : Bool) : List Char → Nat
  | [] => 0
  | c :: after =>
      if whole && c == '.' && beginsWithDigit after then runLength false after + 1
      else if endsRun c after then 0
      else runLength (whole && c.isDigit) after + 1

/-- How many characters continue a quoted text, its closing mark included. -/
def quotedLength (mark : Char) : List Char → Nat
  | [] => 0
  | c :: after => if c = mark then 1 else quotedLength mark after + 1

/-- The type announced by a semicolon: the word behind it, up to a blank or the
end of the line. -/
def announcedType? (after : List Char) : Option TypeName :=
  TypeName.ofTag? (String.ofList (after.takeWhile fun c => !isBlank c))

/-! ## The next piece -/

inductive Shape where
  | quoted
  | separator
  | operator
  | symbol
  | run
  | typeTag (type : TypeName)
  deriving DecidableEq, Repr

/-- The next piece of a text: how many characters are passed over before it, how
many it takes, and of what shape it is. -/
structure Cut where
  shape : Shape
  skipped : Nat
  length : Nat
  deriving DecidableEq, Repr

/-- The piece at a semicolon that touches a run. -/
def separatorCut (mode : Mode) (touching after : List Char) : Cut :=
  match mode, isIdentifier touching, announcedType? after with
  | .annotating, true, some type => ⟨.typeTag type, 1, type.name.length⟩
  | _, _, _ => ⟨.separator, 0, 1⟩

/-- The piece at a character that is no blank.  `touching` is the run that ends
directly before it, or nothing. -/
def nextCut (mode : Mode) (touching : List Char) (c : Char) (after : List Char) : Cut :=
  if isQuote c then ⟨.quoted, 0, quotedLength c after + 1⟩
  else if c = ';' then separatorCut mode touching after
  else if c = '-' ∧ touching = [] ∧ beginsWithDigit after then
    ⟨.run, 0, runLength true after + 1⟩
  else
    match operator? (c :: after) with
    | some operator => ⟨.operator, 0, operator.length⟩
    | none =>
        if isSymbol c then ⟨.symbol, 0, 1⟩
        else ⟨.run, 0, runLength c.isDigit after + 1⟩

theorem length_pos_of_operator? {chars operator : List Char}
    (found : operator? chars = some operator) : 0 < operator.length := by
  have nonempty : ∀ operator ∈ operators, 0 < operator.length := by decide
  exact nonempty operator (List.mem_of_find?_eq_some found)

/-- Every piece takes at least one character. -/
theorem nextCut_length_pos (mode : Mode) (touching : List Char) (c : Char)
    (after : List Char) : 0 < (nextCut mode touching c after).length := by
  unfold nextCut
  split
  · exact Nat.succ_pos _
  split
  · unfold separatorCut
    split
    next type _ _ => cases type <;> decide
    · exact Nat.one_pos
  split
  · exact Nat.succ_pos _
  split
  next found => exact length_pos_of_operator? found
  next =>
    split
    · exact Nat.one_pos
    · exact Nat.succ_pos _

/-! ## The whole line -/

def Shape.content (shape : Shape) (chars : List Char) : Content :=
  match shape with
  | .typeTag type => .typeTag type
  | _ => .text (String.ofList chars)

/-- The run that the text behind a piece touches. -/
def Shape.touching (shape : Shape) (chars : List Char) : List Char :=
  match shape with
  | .run => chars
  | _ => []

/-- The pieces of a text that begins at a position of its line. -/
def scanFrom (mode : Mode) (position : Nat) (touching : List Char) :
    List Char → List Piece
  | [] => []
  | c :: after =>
      if isBlank c then scanFrom mode (position + 1) [] after
      else
        let cut := nextCut mode touching c after
        let ahead := (c :: after).drop cut.skipped
        let start := position + cut.skipped
        let taken := ahead.take cut.length
        ⟨cut.shape.content taken, ⟨start, start + cut.length⟩⟩ ::
          scanFrom mode (start + cut.length) (cut.shape.touching taken)
            (ahead.drop cut.length)
termination_by chars => chars.length
decreasing_by
  · simp
  · have := nextCut_length_pos mode touching c after
    simp only [List.length_drop, List.length_cons]
    omega

def scan (mode : Mode) (line : String) : List Piece :=
  scanFrom mode 0 [] line.toList

end LineScript.Piece
