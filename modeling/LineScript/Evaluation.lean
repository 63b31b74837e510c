import LineScript.Scope

/-!
# Evaluation

A program is evaluated statement by statement against a scope.  Every executed
statement gives one event.  A declaration of a locked name ends the program;
what came before it keeps its effect.  A reference to an unbound name is only
reported.
-/

namespace LineScript

inductive Event where
  | declared (name : String) (entry : Entry)
  | printed (value : Value)
  /-- A failure that did not end the program. -/
  | noted (diagnostic : Diagnostic)
  deriving DecidableEq, Repr

/-- The scope after a program, what happened, and what ended it early. -/
structure Evaluation where
  scope : Scope
  events : List Event
  failure : Option Diagnostic

def Declaration.entry (declaration : Declaration) : Entry :=
  ⟨declaration.mutability, declaration.type, declaration.value⟩

def Argument.event (scope : Scope) : Argument → Event
  | .literal given => .printed given.value
  | .named name span =>
      match scope.get? name with
      | some entry => .printed entry.value
      | none => .noted (.unbound name span)

def Statement.execute (scope : Scope) : Statement → Except Diagnostic (Scope × Event)
  | .declare declaration span =>
      match scope.declare declaration.name declaration.entry span with
      | .ok scope => .ok (scope, .declared declaration.name declaration.entry)
      | .error diagnostic => .error diagnostic
  | .print argument _ => .ok (scope, argument.event scope)

/-- Execute the statements in order, up to the first that fails. -/
def Program.evaluate (scope : Scope) : Program → Evaluation
  | [] => ⟨scope, [], none⟩
  | statement :: rest =>
      match statement.execute scope with
      | .error diagnostic => ⟨scope, [], some diagnostic⟩
      | .ok (scope, event) =>
          let later := Program.evaluate scope rest
          { later with events := event :: later.events }

/-- Evaluate programs one after the other, each on the scope the one before it
left, also when that one failed. -/
def Program.evaluateAll (scope : Scope) : List Program → List Evaluation
  | [] => []
  | program :: rest =>
      let evaluation := program.evaluate scope
      evaluation :: evaluateAll evaluation.scope rest

end LineScript
