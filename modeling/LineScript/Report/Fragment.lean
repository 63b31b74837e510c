/-!
# Painted text

A row of a report is a sequence of fragments, each of which may be painted.
The text of a row with paint differs from the text without only by the escape
sequences around the painted fragments.
-/

namespace LineScript.Report

inductive Paint where
  | red
  | yellow
  | magenta
  | cyan
  | frame
  /-- The bar left of the rows under an excerpt. -/
  | gutter
  | excerpt
  | note
  deriving DecidableEq, Repr

/-- The parameters of the escape sequence that switches a paint on. -/
def Paint.code : Paint → String
  | .red => "31"
  | .yellow => "33"
  | .magenta => "35"
  | .cyan => "36"
  | .frame => "38;5;246"
  | .gutter => "38;5;240"
  | .excerpt => "38;5;249"
  | .note => "38;5;115"

structure Fragment where
  paint : Option Paint
  text : String
  deriving DecidableEq, Repr

abbrev Row := List Fragment

def plain (text : String) : Fragment := ⟨none, text⟩

def painted (paint : Paint) (text : String) : Fragment := ⟨some paint, text⟩

/-- The text of a fragment.  Paint is switched on before it and off behind it. -/
def Fragment.render (colored : Bool) (fragment : Fragment) : String :=
  match fragment.paint with
  | some paint =>
      if colored then "\x1b[" ++ paint.code ++ "m" ++ fragment.text ++ "\x1b[0m"
      else fragment.text
  | none => fragment.text

/-- The text of a row, with its line end. -/
def renderRow (colored : Bool) (row : Row) : String :=
  String.join (row.map (Fragment.render colored)) ++ "\n"

def renderRows (colored : Bool) (rows : List Row) : String :=
  String.join (rows.map (renderRow colored))

end LineScript.Report
