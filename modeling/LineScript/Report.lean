import LineScript.Diagnostic
import LineScript.Report.Excerpt

/-!
# Reports

A report shows a diagnostic in a frame: a headline, the place, an excerpt of the
text it is about, and a note.  The frame is left out when the span starts behind
the text, and the excerpt when the span only ends behind it.
-/

namespace LineScript.Report

def openingRows (filename : String) (excerpt : Excerpt) : List Row :=
  let place := excerpt.first
  let indent := plain (spaces (excerpt.digits + 2))
  [[indent, painted .frame "╭", painted .frame "─", painted .frame "[",
      plain (filename ++ ":" ++ Numeral.naturalText (place.line + 1) ++ ":" ++
        Numeral.naturalText (place.column + 1)),
      painted .frame "]"],
    [indent, painted .frame "│"]]

def noteRows (excerpt : Excerpt) : Option String → List Row
  | none => []
  | some help =>
      [excerpt.footMargin,
        excerpt.footMargin ++
          [painted .note "Note", plain ": ", painted .cyan "help", plain ": ", plain help]]

def closingRow (excerpt : Excerpt) : Row :=
  [painted .frame (String.ofList (List.replicate (excerpt.digits + 2) '─') ++ "╯")]

/-- Whether the place of a span can be shown in a text of some length. -/
def hasPlace (span : Span) (length : Nat) : Bool :=
  length != 0 && span.start ≤ length && !(span.start < span.stop && length < span.stop - 1)

end LineScript.Report

namespace LineScript.Diagnostic

open LineScript.Report

def label (diagnostic : Diagnostic) : Paint :=
  match diagnostic.kind with
  | .unreadable .. => .yellow
  | .locked _ => .magenta
  | .unbound _ => .red

def headline (diagnostic : Diagnostic) : Row :=
  [painted .red "Error:", plain " ", painted diagnostic.label diagnostic.kind.name,
    plain ": ", plain diagnostic.message]

/-- The name shown for a text that comes from no file. -/
def defaultFilename : String := "<repl>"

/-- The part of a text that a diagnostic is about. -/
def excerpt (diagnostic : Diagnostic) (text : List Char) : Excerpt where
  lines := Text.splitLines text
  span := diagnostic.span
  label := diagnostic.label
  message := diagnostic.message

def reportRows (diagnostic : Diagnostic) (text : String) (filename : Option String) :
    List Row :=
  let excerpt := diagnostic.excerpt text.toList
  diagnostic.headline ::
    if hasPlace diagnostic.span text.length then
      openingRows (filename.getD defaultFilename) excerpt ++ excerpt.rows ++
        noteRows excerpt diagnostic.help ++ [closingRow excerpt]
    else []

def report (diagnostic : Diagnostic) (colored : Bool) (text : String)
    (filename : Option String) : String :=
  renderRows colored (diagnostic.reportRows text filename)

end LineScript.Diagnostic
