import LineScript.CommandLine.Switch
import LineScript.Text.Escape

/-!
# Misuse of the command line

Why a command line is refused, and what is said about it.  What the user wrote
is repeated without its escape sequences.
-/

namespace LineScript.CommandLine

open LineScript.Text

def programName : String := "otter"

def usage : String := "Usage: " ++ programName ++ " [OPTIONS] [FILE]\n"

/-- What of a command line has been taken in. -/
structure Given where
  /-- The switches, in the order in which they were given. -/
  switches : List Switch := []
  file : Bool := false
  deriving DecidableEq, Repr

namespace Given

/-- Add a switch, unless it is there. -/
def including (given : Given) (switch : Switch) : Given :=
  if switch ∈ given.switches then given
  else { given with switches := given.switches ++ [switch] }

/-- A usage line that repeats what has been given. -/
def usage (given : Given) : String :=
  if given = {} then CommandLine.usage
  else
    "Usage: " ++ programName ++
      String.join (given.switches.map fun switch => " " ++ switch.display) ++
      (if given.file then " <FILE>\n" else " [FILE]\n")

end Given

inductive Misuse where
  | unknownLong (name : String) (given : Given)
  | unknownShort (letter : Char)
  | surplus (argument : String)
  | repeated (switch : Switch)
  | missingValue (switch : Switch)
  | invalidMode (value : String)
  /-- A value for a switch that takes none. -/
  | excessValue (switch : Switch) (value : String) (given : Given)
  deriving DecidableEq, Repr

namespace Misuse

def quoted (piece : String) : String := "'" ++ visible piece ++ "'"

def possibleModes : String :=
  "  [possible values: " ++ String.intercalate ", " (modeNames.map (·.1)) ++ "]\n"

def unexpected (argument : String) : String :=
  "unexpected argument " ++ quoted argument ++ " found\n\n"

def tip (advice : String) : String := "  tip: " ++ advice ++ "\n"

/-- What looks like a switch may have been meant as an argument. -/
def argumentTip (argument : String) : String :=
  tip ("to pass " ++ quoted argument ++ " as a value, use " ++ quoted ("-- " ++ argument))

/-- The first line of the message, and what follows before the closing hint. -/
def details : Misuse → String
  | .unknownLong name given =>
      let argument := "--" ++ name
      unexpected argument ++
        match Switch.similar? name with
        | some switch =>
            tip ("a similar argument exists: '--" ++ switch.long ++ "'") ++ "\n" ++
              (given.including switch).usage
        | none => argumentTip argument ++ "\n" ++ given.usage
  | .unknownShort letter =>
      let argument := String.ofList ['-', letter]
      unexpected argument ++ argumentTip argument ++ "\n" ++ usage
  | .surplus argument => unexpected argument ++ usage
  | .repeated switch =>
      "the argument '" ++ switch.display ++ "' cannot be used multiple times\n\n" ++ usage
  | .missingValue switch =>
      "a value is required for '" ++ switch.display ++ "' but none was supplied\n" ++
        (if switch = .annotationMode then possibleModes else "")
  | .invalidMode value =>
      "invalid value " ++ quoted value ++ " for '" ++ Switch.annotationMode.display ++ "'\n" ++
        possibleModes ++
        match similarMode? value with
        | some name => "\n" ++ tip ("a similar value exists: '" ++ name ++ "'")
        | none => ""
  | .excessValue switch value given =>
      "unexpected value " ++ quoted value ++ " for '" ++ switch.display ++
        "' found; no more were expected\n\n" ++ (given.including switch).usage

def message (misuse : Misuse) : String :=
  "error: " ++ misuse.details ++ "\nFor more information, try '--help'.\n"

end Misuse

end LineScript.CommandLine
