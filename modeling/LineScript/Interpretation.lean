import LineScript.Evaluation
import LineScript.Statement.OfTokens
import LineScript.Token.Classify

/-!
# Interpretation of a line

A line is cut, classified, read as a program and evaluated.  A line that is no
program is rejected and changes nothing.
-/

namespace LineScript

inductive Outcome where
  /-- Every statement ran. -/
  | completed (events : List Event)
  /-- The line is no program. -/
  | rejected (diagnostic : Diagnostic)
  /-- Evaluation ended early, after some events. -/
  | aborted (events : List Event) (diagnostic : Diagnostic)
  deriving DecidableEq, Repr

namespace Outcome

def events : Outcome → List Event
  | .completed events | .aborted events _ => events
  | .rejected _ => []

def failure : Outcome → Option Diagnostic
  | .completed _ => none
  | .rejected diagnostic | .aborted _ diagnostic => some diagnostic

def ofEvaluation (evaluation : Evaluation) : Outcome :=
  match evaluation.failure with
  | none => .completed evaluation.events
  | some diagnostic => .aborted evaluation.events diagnostic

end Outcome

structure Interpretation where
  tokens : List Token
  outcome : Outcome
  scope : Scope

def interpret (mode : Mode) (line : String) (scope : Scope) : Interpretation :=
  let tokens := Token.ofLine mode line
  match Program.ofTokens tokens with
  | .error diagnostic => ⟨tokens, .rejected diagnostic, scope⟩
  | .ok program =>
      let evaluation := program.evaluate scope
      ⟨tokens, .ofEvaluation evaluation, evaluation.scope⟩

end LineScript
