import LineScript.Proofs.Evaluation
import Mathlib.Data.List.Chain
import Mathlib.Data.List.Infix

/-!
# Histories of scopes

A scope changes by interpreted lines, by declarations made directly and by programs
that one evaluator runs in turn.  Along any sequence of such acts it passes through
stages, one for every statement that is executed.  From each stage to the next a
binding stays, comes into being, or replaces one that is not locked.
-/

namespace LineScript

/-! ## Acts -/

inductive Act where
  | line (mode : Mode) (text : String)
  | declare (name : String) (entry : Entry) (span : Span)
  | evaluate (programs : List Program)

/-- The scope that an evaluator leaves behind. -/
def Program.scopeAfter (scope : Scope) (programs : List Program) : Scope :=
  ((evaluateAll scope programs).map (·.scope)).getLastD scope

def Act.apply (scope : Scope) : Act → Scope
  | .line mode text => (interpret mode text scope).scope
  | .declare name entry span => (scope.declare name entry span).toOption.getD scope
  | .evaluate programs => Program.scopeAfter scope programs

def Act.applyAll (scope : Scope) (acts : List Act) : Scope := acts.foldl Act.apply scope

/-! ## Stages -/

/-- The scopes that the beginnings of a program leave behind. -/
def Program.stages (scope : Scope) (program : Program) : List Scope :=
  program.inits.map fun before => (evaluate scope before).scope

def Program.stagesAll (scope : Scope) : List Program → List Scope
  | [] => [scope]
  | program :: rest => stages scope program ++ stagesAll (program.evaluate scope).scope rest

/-- The program of a line, if it is one. -/
def linePrograms (mode : Mode) (text : String) : List Program :=
  (Program.ofTokens (Token.ofLine mode text)).toOption.toList

def Act.stages (scope : Scope) : Act → List Scope
  | .line mode text => Program.stagesAll scope (linePrograms mode text)
  | .declare name entry span => [scope, (Act.declare name entry span).apply scope]
  | .evaluate programs => Program.stagesAll scope programs

def Act.stagesAll (scope : Scope) : List Act → List Scope
  | [] => [scope]
  | act :: rest => act.stages scope ++ stagesAll (act.apply scope) rest

@[simp] theorem Program.scopeAfter_nil (scope : Scope) : scopeAfter scope [] = scope := rfl

@[simp] theorem Program.scopeAfter_cons (scope : Scope) (program : Program)
    (rest : List Program) :
    scopeAfter scope (program :: rest) = scopeAfter (program.evaluate scope).scope rest := by
  rw [scopeAfter, evaluateAll, List.map_cons, List.getLastD_cons]
  rfl

theorem interpret_scope_eq (mode : Mode) (text : String) (scope : Scope) :
    (interpret mode text scope).scope = Program.scopeAfter scope (linePrograms mode text) := by
  cases read : Program.ofTokens (Token.ofLine mode text) with
  | error diagnostic =>
      rw [interpret_of_error read, linePrograms, read]
      rfl
  | ok program =>
      rw [interpret_of_ok read, linePrograms, read]
      rfl

theorem Program.stages_of_error {scope : Scope} {statement : Statement} {diagnostic : Diagnostic}
    (failed : statement.execute scope = .error diagnostic) (rest : Program) :
    stages scope (statement :: rest) = List.replicate (rest.length + 2) scope := by
  have same : (fun before => (evaluate scope (statement :: before)).scope) = fun _ => scope := by
    funext before
    rw [evaluate_of_error failed]
  rw [stages, List.inits_cons, List.map_cons, List.map_map, Function.comp_def, same,
    List.map_const', List.length_inits]
  rfl

theorem Program.stages_of_ok {scope next : Scope} {statement : Statement} {event : Event}
    (executed : statement.execute scope = .ok (next, event)) (rest : Program) :
    stages scope (statement :: rest) = scope :: stages next rest := by
  have same : (fun before => (evaluate scope (statement :: before)).scope) =
      fun before => (evaluate next before).scope := by
    funext before
    rw [evaluate_of_ok executed]
  rw [stages, List.inits_cons, List.map_cons, List.map_map, Function.comp_def, same]
  rfl

/-! ## From one stage to the next -/

/-- What may become of a binding. -/
inductive Succeeds : Option Entry → Option Entry → Prop
  | same (binding : Option Entry) : Succeeds binding binding
  | first (entry : Entry) : Succeeds none (some entry)
  | again {old : Entry} (new : Entry) (free : old.mutability = .mutable) :
      Succeeds (some old) (some new)

def Scope.LeadsTo (earlier later : Scope) : Prop :=
  ∀ name, Succeeds (earlier.get? name) (later.get? name)

theorem Scope.LeadsTo.refl (scope : Scope) : scope.LeadsTo scope := fun _ => .same _

theorem Scope.leadsTo_bind {scope : Scope} {name : String} (free : scope.isLocked name = false)
    (entry : Entry) : scope.LeadsTo (scope.bind name entry) := by
  intro other
  rw [get?_bind]
  split
  next same =>
    subst same
    cases bound : scope.get? name with
    | none => exact .first entry
    | some old => exact .again entry (isLocked_eq_false_iff.mp free old bound)
  · exact .same _

theorem Scope.leadsTo_declare (scope : Scope) (name : String) (entry : Entry) (span : Span) :
    scope.LeadsTo ((Act.declare name entry span).apply scope) := by
  rw [Act.apply]
  cases locked : scope.isLocked name with
  | true =>
      rw [declare_of_locked locked]
      exact .refl scope
  | false =>
      rw [declare_of_free locked]
      exact leadsTo_bind locked entry

theorem Statement.leadsTo_of_execute {scope next : Scope} {statement : Statement} {event : Event}
    (executed : statement.execute scope = .ok (next, event)) : scope.LeadsTo next := by
  rcases execute_eq_ok_cases executed with ⟨_, _, -, free, rfl, -⟩ | ⟨_, _, -, rfl, -⟩
  · exact Scope.leadsTo_bind free _
  · exact .refl next

/-! ## Paths -/

/-- Stages from one scope to another, each leading to the next. -/
structure Path (start finish : Scope) (stages : List Scope) : Prop where
  head : stages.head? = some start
  last : stages.getLast? = some finish
  chain : stages.IsChain Scope.LeadsTo

theorem Path.single (scope : Scope) : Path scope scope [scope] := ⟨rfl, rfl, .singleton scope⟩

theorem Path.append {start middle finish : Scope} {first second : List Scope}
    (left : Path start middle first) (right : Path middle finish second) :
    Path start finish (first ++ second) := by
  refine ⟨?_, ?_, ?_⟩
  · rw [List.head?_append, left.head]
    rfl
  · rw [List.getLast?_append, right.last]
    rfl
  · apply left.chain.append right.chain
    intro before isLast after isFirst
    rw [left.last] at isLast
    rw [right.head] at isFirst
    cases isLast
    cases isFirst
    exact .refl middle

theorem Path.cons {start next finish : Scope} {stages : List Scope} (leads : start.LeadsTo next)
    (tail : Path next finish stages) : Path start finish (start :: stages) := by
  refine ⟨rfl, ?_, tail.chain.cons ?_⟩
  · rw [List.getLast?_cons, tail.last]
    rfl
  · intro after isFirst
    rw [tail.head] at isFirst
    cases isFirst
    exact leads

theorem Program.path (scope : Scope) (program : Program) :
    Path scope (program.evaluate scope).scope (stages scope program) := by
  induction program generalizing scope with
  | nil => exact .single scope
  | cons statement rest ih =>
      cases executed : statement.execute scope with
      | error diagnostic =>
          -- Behind a statement that fails nothing changes, so all stages are one scope.
          rw [stages_of_error executed, evaluate_of_error executed]
          refine ⟨rfl, ?_, List.isChain_replicate_of_rel _ (.refl scope)⟩
          simp [List.getLast?_replicate]
      | ok result =>
          obtain ⟨next, event⟩ := result
          rw [stages_of_ok executed, evaluate_of_ok executed]
          exact .cons (Statement.leadsTo_of_execute executed) (ih next)

theorem Program.pathAll (scope : Scope) (programs : List Program) :
    Path scope (scopeAfter scope programs) (stagesAll scope programs) := by
  induction programs generalizing scope with
  | nil => exact .single scope
  | cons program rest ih =>
      rw [scopeAfter_cons, stagesAll]
      exact (path scope program).append (ih _)

theorem Act.path (scope : Scope) (act : Act) : Path scope (act.apply scope) (act.stages scope) := by
  cases act with
  | line mode text =>
      rw [apply, interpret_scope_eq]
      exact Program.pathAll scope _
  | declare name entry span =>
      exact .cons (Scope.leadsTo_declare scope name entry span) (.single _)
  | evaluate programs => exact Program.pathAll scope programs

theorem Act.pathAll (scope : Scope) (acts : List Act) :
    Path scope (applyAll scope acts) (stagesAll scope acts) := by
  induction acts generalizing scope with
  | nil => exact .single scope
  | cons act rest ih => exact (path scope act).append (ih _)

end LineScript
