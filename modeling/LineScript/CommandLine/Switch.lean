import LineScript.Piece
import LineScript.Text.Similarity

/-!
# Switches

The options of the command line.  Each has a long name; some have a short one
of one letter, and some are followed by a value.
-/

namespace LineScript.CommandLine

inductive Switch where
  | interactive
  | prompt
  | annotationMode
  | tokens
  | quiet
  | report
  | help
  | version
  deriving DecidableEq, Repr

namespace Switch

def all : List Switch :=
  [.interactive, .prompt, .annotationMode, .tokens, .quiet, .report, .help, .version]

/-- The long name, without its dashes. -/
def long : Switch → String
  | .interactive => "interactive"
  | .prompt => "prompt"
  | .annotationMode => "annotation-mode"
  | .tokens => "tokens"
  | .quiet => "quiet"
  | .report => "report"
  | .help => "help"
  | .version => "version"

/-- The short name, without its dash. -/
def short? : Switch → Option Char
  | .interactive => some 'i'
  | .quiet => some 'q'
  | .help => some 'h'
  | .version => some 'V'
  | _ => none

/-- What the value is called, for a switch that takes one. -/
def valueName? : Switch → Option String
  | .prompt => some "TEXT"
  | .annotationMode => some "MODE"
  | _ => none

def ofLong? (name : String) : Option Switch := all.find? fun switch => switch.long == name

def ofShort? (letter : Char) : Option Switch :=
  all.find? fun switch => switch.short? == some letter

/-- The switch that an unknown long name may have been meant for. -/
def similar? (name : String) : Option Switch := Text.mostSimilar? long all name

def display (switch : Switch) : String :=
  match switch.valueName? with
  | some value => "--" ++ switch.long ++ " <" ++ value ++ ">"
  | none => "--" ++ switch.long

end Switch

def modeNames : List (String × Mode) :=
  [("annotation", .annotating), ("terminator", .terminating)]

/-- The name of a mode that an unknown one may have been meant for. -/
def similarMode? (value : String) : Option String :=
  Text.mostSimilar? id (modeNames.map (·.1)) value

end LineScript.CommandLine
