import LineScript.Token

/-!
# Diagnostics

A diagnostic says what is wrong with a line and where.  It concerns the tokens,
which form no program; a declaration, whose name is locked; or a reference,
whose name is not bound.
-/

namespace LineScript

namespace Diagnostic

inductive Kind where
  /-- The tokens form no program.  Nothing is found where the line ends too
  early; statements are numbered from one. -/
  | unreadable (found : Option TokenKind) (position : Option Nat) (statement : Nat)
  | locked (name : String)
  | unbound (name : String)
  deriving DecidableEq, Repr

/-- The name of a kind of diagnostic, as shown before its message. -/
def Kind.name : Kind → String
  | .unreadable .. => "ParseError"
  | .locked _ => "ImmutabilityViolation"
  | .unbound _ => "UndefinedReference"

end Diagnostic

structure Diagnostic where
  kind : Diagnostic.Kind
  span : Span
  message : String
  help : Option String
  deriving DecidableEq, Repr

namespace Diagnostic

/-- A declaration of a name that is bound for good. -/
def locked (name : String) (span : Span) : Diagnostic where
  kind := .locked name
  span := span
  message := "cannot redeclare immutable variable '" ++ name ++ "'"
  help := some ("'" ++ name ++ "' was declared with 'set'; use 'let' for bindings that change")

/-- A reference to a name that is not bound. -/
def unbound (name : String) (span : Span) : Diagnostic where
  kind := .unbound name
  span := span
  message := "'" ++ name ++ "' is not defined"
  help := none

/-- A diagnostic on one row. -/
def display (diagnostic : Diagnostic) : String :=
  diagnostic.kind.name ++ ": " ++ diagnostic.message

end Diagnostic

end LineScript
