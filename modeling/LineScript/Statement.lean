import LineScript.Span
import LineScript.Value

/-!
# Statements

A line is a program: a sequence of statements.  A statement binds a name or
prints a value.
-/

namespace LineScript

inductive Mutability where
  /-- Bound with `let`; the name may be bound again. -/
  | mutable
  /-- Bound with `set`; the name is locked. -/
  | immutable
  deriving DecidableEq, Repr, Inhabited

def Mutability.name : Mutability → String
  | .mutable => "mutable"
  | .immutable => "immutable"

structure Literal where
  value : Value
  span : Span
  deriving DecidableEq, Repr, Inhabited

/-- What `print` is given: a literal, or a name to be looked up. -/
inductive Argument where
  | literal (literal : Literal)
  | named (name : String) (span : Span)
  deriving DecidableEq, Repr

structure Declaration where
  mutability : Mutability
  name : String
  declaredType : Option TypeName
  initializer : Option Literal
  deriving DecidableEq, Repr

inductive Statement where
  | declare (declaration : Declaration) (span : Span)
  | print (argument : Argument) (span : Span)
  deriving DecidableEq, Repr

def Statement.span : Statement → Span
  | .declare _ span | .print _ span => span

abbrev Program := List Statement

namespace Declaration

/-- The type of the binding: the declared one, else that of the value. -/
def type (declaration : Declaration) : TypeName :=
  match declaration.declaredType, declaration.initializer with
  | some type, _ => type
  | none, some literal => literal.value.type
  | none, none => .void

def value (declaration : Declaration) : Value :=
  match declaration.initializer with
  | some literal => literal.value
  | none => .void

end Declaration

end LineScript
