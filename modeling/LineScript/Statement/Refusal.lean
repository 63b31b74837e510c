import LineScript.Diagnostic

/-!
# Refusals

Why a sequence of tokens forms no program.  A refusal is raised at the first
token that no continuation can make good, or at the end of the line when the
tokens so far are only the beginning of a program.
-/

namespace LineScript

/-- The cause of a refusal.  A start is bad by being no keyword of a statement,
and a reserved one is a keyword of control flow. -/
inductive Refusal where
  | badStart (reserved : Bool)
  | nameExpected (keyword : String)
  | unsupportedValue
  | unsupportedArgument
  | missingArgument
  | integerOutOfRange (lexeme : String)
  | invalidFloat (lexeme : String)
  deriving DecidableEq, Repr

namespace Refusal

def message : Refusal → String
  | .badStart _ => "Unexpected token"
  | .nameExpected keyword => "Expected variable name after '" ++ keyword ++ "'"
  | .unsupportedValue => "Unsupported value type"
  | .unsupportedArgument => "print: unsupported argument type"
  | .missingArgument => "print: missing argument"
  | .integerOutOfRange lexeme => "Integer literal out of range: " ++ lexeme
  | .invalidFloat lexeme => "Invalid float literal: " ++ lexeme

def help : Refusal → Option String
  | .badStart true => some "control-flow keywords are reserved and cannot start a statement yet"
  | .badStart false => some "statements start with 'let', 'set' or 'print'"
  | .nameExpected keyword =>
      some ("declarations look like '" ++ keyword ++ " name = value' or '" ++ keyword ++
        " name;int = 5'")
  | .unsupportedValue =>
      some "supported values are integers, floats, quoted strings, true and false"
  | .unsupportedArgument =>
      some "print takes a literal, a variable name or a '?name' reference"
  | .missingArgument | .integerOutOfRange _ | .invalidFloat _ => none

/-- Where reading stands in a line: the number of the statement being read, and
the position behind the line's last token. -/
structure Place where
  statement : Nat
  lineEnd : Nat
  deriving DecidableEq, Repr

def atToken (refusal : Refusal) (place : Place) (token : Token) : Diagnostic where
  kind := .unreadable (some token.kind) (some token.position) place.statement
  span := token.span
  message := refusal.message ++ ": found " ++ token.kind.name ++ " '" ++ token.lexeme ++
    "' at position " ++ Numeral.naturalText token.position ++ " (statement " ++
    Numeral.naturalText place.statement ++ ")"
  help := refusal.help

def atEnd (refusal : Refusal) (place : Place) : Diagnostic where
  kind := .unreadable none none place.statement
  span := .single place.lineEnd
  message := refusal.message ++ ": found end of input (statement " ++
    Numeral.naturalText place.statement ++ ")"
  help := refusal.help

end Refusal

end LineScript
