import LineScript.Numeral.Integer
import LineScript.Report.Fragment
import LineScript.Report.Place
import LineScript.Span
import LineScript.Text.Width

/-!
# Excerpts

An excerpt shows the lines of a text that a span covers.  A span within one line
is marked under it.  For a span over several lines only the first and the last
are shown, joined by a bar on their left, and the lines between them are left
out.
-/

namespace LineScript.Report

open LineScript.Text

/-! ## Characters -/

/-- The columns that the character at an index of a line takes.  A tab reaches
to the next index divisible by four; any other blank takes one column. -/
def columns (index : Nat) (c : Char) : Nat :=
  if c = '\t' then (index / 4 + 1) * 4 - index
  else if isBlank c then 1
  else displayWidth c

/-- The columns at an index, one behind the end of the text. -/
def columnsAt (text : List Char) (index : Nat) : Nat :=
  match text[index]? with
  | some c => columns index c
  | none => 1

/-- One character of a shown line.  A blank is shown as spaces. -/
def excerptCell (label : Paint) (span : Span) (index : Nat) (c : Char) : Row :=
  let paint := if span.contains index then label else .excerpt
  if isBlank c then List.replicate (columns index c) (painted paint " ")
  else [painted paint (String.singleton c)]

/-- A line, without the blanks at its end. -/
def textCells (label : Paint) (span : Span) (text : List Char) : Row :=
  (text.mapIdx (excerptCell label span)).flatten

/-! ## Markers -/

/-- A cell of a marker row: one fragment, and others to fill its columns. -/
def cell (width : Nat) (first rest : Fragment) : Row :=
  match width with
  | 0 => []
  | more + 1 => first :: List.replicate more rest

def underlineCell (label : Paint) (span : Span) (width index : Nat) : Row :=
  if index = span.middle then
    if span.contains index then cell width (painted label "┬") (painted label "─")
    else cell width (painted label "│") (painted label " ")
  else if span.contains index then cell width (painted label "─") (painted label "─")
  else cell width (plain " ") (plain " ")

/-- The cell of the row that leads from the span to the message. -/
def arrowCell (label : Paint) (span : Span) (width index : Nat) : Row :=
  if index = span.middle then cell width (painted label "╰") (painted label "─")
  else if span.middle < index then cell width (painted label "─") (painted label "─")
  else cell width (plain " ") (plain " ")

/-- The cells under the first indices of a line, two more than asked for. -/
def markers (text : List Char) (length : Nat) (cellAt : (width index : Nat) → Row) : Row :=
  (List.range (length + 2)).flatMap fun index => cellAt (columnsAt text index) index

def blankCell (width _index : Nat) : Row := cell width (plain " ") (plain " ")

def barCell (label : Paint) (width _index : Nat) : Row :=
  cell width (painted label "─") (painted label "─")

/-! ## Margins -/

def spaces (count : Nat) : String := String.ofList (List.replicate count ' ')

/-- What stands left of a row that shows no line.  Line numbers take some
digits. -/
def margin (digits : Nat) : Row :=
  [plain " ", painted .gutter (spaces (digits + 1) ++ "│"), plain " "]

def gapMargin (digits : Nat) : Row :=
  [plain " ", painted .gutter (spaces (digits + 1) ++ "┆"), plain " "]

/-- What stands left of a line: its number, counted from one. -/
def lineMargin (digits line : Nat) : Row :=
  let number := Numeral.naturalText (line + 1)
  [plain " ", painted .frame (spaces (digits - number.length) ++ number ++ " │"), plain " "]

/-! ## Spans over several lines -/

/-- The bar left of the first line of a span, and of its last line. -/
def arrow (label : Paint) (corner : String) : Row :=
  [painted label corner, painted label "─", painted label "▶", painted label " "]

def bar (label : Paint) (stroke : String) : Row :=
  [painted label stroke, plain " ", plain " ", plain " "]

def noBar : Row := List.replicate 4 (plain " ")

/-! ## The whole excerpt -/

/-- A span of a text, with what is said about it. -/
structure Excerpt where
  lines : List (List Char)
  span : Span
  label : Paint
  message : String
  deriving DecidableEq, Repr

namespace Excerpt

def length (excerpt : Excerpt) : Nat := excerpt.lines.flatten.length

def first (excerpt : Excerpt) : Place := place excerpt.lines excerpt.span.start

/-- The place of the last character of the span. -/
def last (excerpt : Excerpt) : Place :=
  place excerpt.lines (max (excerpt.span.stop - 1) excerpt.span.start)

def digits (excerpt : Excerpt) : Nat :=
  (Numeral.naturalText (excerpt.last.line + 1)).length

def isWithinLine (excerpt : Excerpt) : Bool := excerpt.first.line == excerpt.last.line

def overruns (excerpt : Excerpt) : Bool := decide (excerpt.length < excerpt.span.stop)

def line (excerpt : Excerpt) (number : Nat) : List Char := excerpt.lines.getD number []

def shownText (excerpt : Excerpt) (number : Nat) : List Char :=
  dropEndWhile isBlank (excerpt.line number)

/-- The span, counted from the start of a line. -/
def spanIn (excerpt : Excerpt) (number : Nat) : Span :=
  let start := (excerpt.lines.take number).flatten.length
  ⟨excerpt.span.start - start, excerpt.span.stop - start⟩

def lineRow (excerpt : Excerpt) (number : Nat) (bar : Row) : Row :=
  lineMargin excerpt.digits number ++ bar ++
    textCells excerpt.label (excerpt.spanIn number) (excerpt.shownText number)

def markerRow (excerpt : Excerpt) (number length : Nat) (bar : Row)
    (cellAt : (width index : Nat) → Row) : Row :=
  margin excerpt.digits ++ bar ++ markers (excerpt.shownText number) length cellAt

def messageCells (excerpt : Excerpt) : Row := [plain " ", plain excerpt.message]

def inlineRows (excerpt : Excerpt) : List Row :=
  let number := excerpt.first.line
  let span := excerpt.spanIn number
  [excerpt.lineRow number [],
    excerpt.markerRow number span.stop [] (underlineCell excerpt.label span),
    excerpt.markerRow number span.stop [] (arrowCell excerpt.label span) ++ excerpt.messageCells]

def gapRow (excerpt : Excerpt) : Row :=
  gapMargin excerpt.digits ++ bar excerpt.label "┆"

/-- The rows of the last line of a span over several lines.  The message stands
behind the end of the line. -/
def endRows (excerpt : Excerpt) : List Row :=
  let number := excerpt.last.line
  let length := (excerpt.line number).length
  [excerpt.lineRow number (arrow excerpt.label "├"),
    excerpt.markerRow number length (bar excerpt.label "│") blankCell,
    excerpt.markerRow number length
        ([painted excerpt.label "╰"] ++ List.replicate 3 (painted excerpt.label "─"))
        (barCell excerpt.label) ++ excerpt.messageCells]

/-- The rows of a span over several lines.  The last line of a span that ends
behind the text is left out. -/
def blockRows (excerpt : Excerpt) : List Row :=
  excerpt.lineRow excerpt.first.line (arrow excerpt.label "╭") ::
    if excerpt.overruns then [excerpt.gapRow]
    else if excerpt.first.line + 1 = excerpt.last.line then excerpt.endRows
    else excerpt.gapRow :: excerpt.endRows

def rows (excerpt : Excerpt) : List Row :=
  if !excerpt.isWithinLine then excerpt.blockRows
  else if excerpt.overruns then [margin excerpt.digits]
  else excerpt.inlineRows

/-- What stands left of a row under the excerpt.  The bar of a span over several
lines goes on there if the span starts with the second line of the text. -/
def footMargin (excerpt : Excerpt) : Row :=
  margin excerpt.digits ++
    if excerpt.isWithinLine then []
    else if excerpt.span.start = (excerpt.line 0).length then bar excerpt.label "│"
    else noBar

end Excerpt

end LineScript.Report
