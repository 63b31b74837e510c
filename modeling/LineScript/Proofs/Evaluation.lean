import LineScript.Interpretation

/-!
# Steps of an evaluation

A statement either fails and leaves the scope alone, or gives one event and a new scope.
A program goes through its statements up to the first that fails, so what a
beginning of it does is also what it does itself.
-/

namespace LineScript

/-! ## Scopes -/

namespace Scope

theorem isLocked_eq_true_iff {scope : Scope} {name : String} :
    scope.isLocked name = true ↔
      ∃ entry, scope.get? name = some entry ∧ entry.mutability = .immutable := by
  unfold isLocked
  cases scope.get? name <;> simp

theorem isLocked_eq_false_iff {scope : Scope} {name : String} :
    scope.isLocked name = false ↔
      ∀ entry, scope.get? name = some entry → entry.mutability = .mutable := by
  unfold isLocked
  cases scope.get? name with
  | none => simp
  | some entry => cases mutability : entry.mutability <;> simp [mutability]

theorem declare_of_locked {scope : Scope} {name : String} (locked : scope.isLocked name = true)
    (entry : Entry) (span : Span) :
    scope.declare name entry span = .error (.locked name span) := by
  rw [declare, if_pos locked]

theorem declare_of_free {scope : Scope} {name : String} (free : scope.isLocked name = false)
    (entry : Entry) (span : Span) :
    scope.declare name entry span = .ok (scope.bind name entry) := by
  rw [declare, if_neg (by simp [free])]

end Scope

/-! ## Statements -/

theorem Statement.execute_declare_of_locked {scope : Scope} {declaration : Declaration}
    (locked : scope.isLocked declaration.name = true) (span : Span) :
    (Statement.declare declaration span).execute scope =
      .error (.locked declaration.name span) := by
  rw [execute, Scope.declare_of_locked locked]

theorem Statement.execute_declare_of_free {scope : Scope} {declaration : Declaration}
    (free : scope.isLocked declaration.name = false) (span : Span) :
    (Statement.declare declaration span).execute scope =
      .ok (scope.bind declaration.name declaration.entry,
        .declared declaration.name declaration.entry) := by
  rw [execute, Scope.declare_of_free free]

/-- A statement that does not fail binds a name that is not locked, or prints. -/
theorem Statement.execute_eq_ok_cases {scope next : Scope} {statement : Statement} {event : Event}
    (executed : statement.execute scope = .ok (next, event)) :
    (∃ declaration span, statement = .declare declaration span ∧
      scope.isLocked declaration.name = false ∧
      next = scope.bind declaration.name declaration.entry ∧
      event = .declared declaration.name declaration.entry) ∨
    (∃ argument span, statement = .print argument span ∧ next = scope ∧
      event = argument.event scope) := by
  cases statement with
  | declare declaration span =>
      cases locked : scope.isLocked declaration.name with
      | true =>
          rw [execute_declare_of_locked locked] at executed
          contradiction
      | false =>
          rw [execute_declare_of_free locked] at executed
          obtain ⟨rfl, rfl⟩ := Prod.mk.inj (Except.ok.inj executed)
          exact .inl ⟨declaration, span, rfl, locked, rfl, rfl⟩
  | print argument span =>
      obtain ⟨rfl, rfl⟩ := Prod.mk.inj (Except.ok.inj executed)
      exact .inr ⟨argument, span, rfl, rfl, rfl⟩

/-- Only a declaration of a locked name fails. -/
theorem Statement.execute_eq_error_cases {scope : Scope} {statement : Statement}
    {diagnostic : Diagnostic} (failed : statement.execute scope = .error diagnostic) :
    ∃ declaration span, statement = .declare declaration span ∧
      scope.isLocked declaration.name = true ∧ diagnostic = .locked declaration.name span := by
  cases statement with
  | declare declaration span =>
      cases locked : scope.isLocked declaration.name with
      | true =>
          rw [execute_declare_of_locked locked] at failed
          exact ⟨declaration, span, rfl, locked, (Except.error.inj failed).symm⟩
      | false =>
          rw [execute_declare_of_free locked] at failed
          contradiction
  | print argument span => contradiction

theorem Argument.event_ne_declared (scope : Scope) (argument : Argument) (name : String)
    (entry : Entry) : argument.event scope ≠ .declared name entry := by
  cases argument with
  | literal given => simp [event]
  | named reference span => cases found : scope.get? reference <;> simp [event, found]

/-! ## Programs -/

namespace Program

theorem evaluate_of_error {scope : Scope} {statement : Statement} {diagnostic : Diagnostic}
    (failed : statement.execute scope = .error diagnostic) (rest : Program) :
    evaluate scope (statement :: rest) = ⟨scope, [], some diagnostic⟩ := by
  rw [evaluate, failed]

theorem evaluate_of_ok {scope next : Scope} {statement : Statement} {event : Event}
    (executed : statement.execute scope = .ok (next, event)) (rest : Program) :
    evaluate scope (statement :: rest) =
      { evaluate next rest with events := event :: (evaluate next rest).events } := by
  rw [evaluate, executed]

theorem evaluate_append {scope : Scope} {first : Program}
    (completed : (evaluate scope first).failure = none) (second : Program) :
    evaluate scope (first ++ second) =
      { evaluate (evaluate scope first).scope second with
        events := (evaluate scope first).events ++
          (evaluate (evaluate scope first).scope second).events } := by
  induction first generalizing scope with
  | nil => simp [evaluate]
  | cons statement rest ih =>
      cases executed : statement.execute scope with
      | error diagnostic =>
          rw [evaluate_of_error executed] at completed
          contradiction
      | ok result =>
          obtain ⟨next, event⟩ := result
          rw [evaluate_of_ok executed] at completed ⊢
          rw [List.cons_append, evaluate_of_ok executed, ih completed]
          rfl

theorem evaluate_append_of_failure {scope : Scope} {first : Program} {diagnostic : Diagnostic}
    (failed : (evaluate scope first).failure = some diagnostic) (second : Program) :
    evaluate scope (first ++ second) = evaluate scope first := by
  induction first generalizing scope with
  | nil => contradiction
  | cons statement rest ih =>
      rw [List.cons_append]
      cases executed : statement.execute scope with
      | error diagnostic => rw [evaluate_of_error executed, evaluate_of_error executed]
      | ok result =>
          obtain ⟨next, event⟩ := result
          rw [evaluate_of_ok executed] at failed ⊢
          rw [evaluate_of_ok executed, ih failed]

/-- Every statement of a program keeps a property of the scope it runs on. -/
def Keeps (holds : Scope → Prop) (program : Program) : Prop :=
  ∀ statement ∈ program, ∀ scope next event, holds scope →
    statement.execute scope = .ok (next, event) → holds next

theorem Keeps.tail {holds : Scope → Prop} {statement : Statement} {rest : Program}
    (keeps : Keeps holds (statement :: rest)) : Keeps holds rest :=
  fun other member => keeps other (List.mem_cons_of_mem _ member)

theorem Keeps.evaluate {holds : Scope → Prop} {program : Program} (keeps : program.Keeps holds)
    {scope : Scope} (start : holds scope) : holds (program.evaluate scope).scope := by
  induction program generalizing scope with
  | nil => exact start
  | cons statement rest ih =>
      cases executed : statement.execute scope with
      | error diagnostic =>
          rw [evaluate_of_error executed]
          exact start
      | ok result =>
          obtain ⟨next, event⟩ := result
          rw [evaluate_of_ok executed]
          exact ih keeps.tail (keeps statement List.mem_cons_self scope next event start executed)

/-- Every event was given by some statement, on a scope with the property that is kept. -/
theorem Keeps.exists_of_mem_events {holds : Scope → Prop} {program : Program}
    (keeps : program.Keeps holds) {scope : Scope} (start : holds scope) {event : Event}
    (member : event ∈ (program.evaluate scope).events) :
    ∃ statement ∈ program, ∃ before next, holds before ∧
      statement.execute before = .ok (next, event) := by
  induction program generalizing scope with
  | nil => contradiction
  | cons statement rest ih =>
      cases executed : statement.execute scope with
      | error diagnostic =>
          rw [evaluate_of_error executed] at member
          contradiction
      | ok result =>
          obtain ⟨next, first⟩ := result
          rw [evaluate_of_ok executed] at member
          rcases List.mem_cons.mp member with rfl | later
          · exact ⟨statement, List.mem_cons_self, scope, next, start, executed⟩
          · have held := keeps statement List.mem_cons_self scope next first start executed
            obtain ⟨other, there, run⟩ := ih keeps.tail held later
            exact ⟨other, List.mem_cons_of_mem _ there, run⟩

theorem exists_of_failure {scope : Scope} {program : Program} {diagnostic : Diagnostic}
    (failed : (evaluate scope program).failure = some diagnostic) :
    ∃ statement ∈ program, ∃ before, statement.execute before = .error diagnostic := by
  induction program generalizing scope with
  | nil => contradiction
  | cons statement rest ih =>
      cases executed : statement.execute scope with
      | error failure =>
          rw [evaluate_of_error executed] at failed
          obtain rfl : failure = diagnostic := Option.some.inj failed
          exact ⟨statement, List.mem_cons_self, scope, executed⟩
      | ok result =>
          obtain ⟨next, event⟩ := result
          rw [evaluate_of_ok executed] at failed
          obtain ⟨other, there, run⟩ := ih failed
          exact ⟨other, List.mem_cons_of_mem _ there, run⟩

end Program

/-! ## Lines -/

theorem interpret_of_error {mode : Mode} {text : String} {diagnostic : Diagnostic}
    (refused : Program.ofTokens (Token.ofLine mode text) = .error diagnostic) (scope : Scope) :
    interpret mode text scope = ⟨Token.ofLine mode text, .rejected diagnostic, scope⟩ := by
  simp only [interpret, refused]

theorem interpret_of_ok {mode : Mode} {text : String} {program : Program}
    (read : Program.ofTokens (Token.ofLine mode text) = .ok program) (scope : Scope) :
    interpret mode text scope =
      ⟨Token.ofLine mode text, .ofEvaluation (program.evaluate scope),
        (program.evaluate scope).scope⟩ := by
  simp only [interpret, read]

/-- Two lines that end in the same way, whatever they did before. -/
inductive Outcome.SameKind : Outcome → Outcome → Prop
  | completed (events others : List Event) : SameKind (.completed events) (.completed others)
  | rejected (diagnostic other : Diagnostic) : SameKind (.rejected diagnostic) (.rejected other)
  | aborted (events others : List Event) (diagnostic other : Diagnostic) :
      SameKind (.aborted events diagnostic) (.aborted others other)

theorem Outcome.SameKind.refl (outcome : Outcome) : outcome.SameKind outcome := by
  cases outcome with
  | completed events => exact .completed events events
  | rejected diagnostic => exact .rejected diagnostic diagnostic
  | aborted events diagnostic => exact .aborted events events diagnostic diagnostic

theorem Outcome.events_ofEvaluation (evaluation : Evaluation) :
    (ofEvaluation evaluation).events = evaluation.events := by
  unfold ofEvaluation
  cases evaluation.failure <;> rfl

theorem Outcome.failure_ofEvaluation (evaluation : Evaluation) :
    (ofEvaluation evaluation).failure = evaluation.failure := by
  unfold ofEvaluation
  cases evaluation.failure <;> rfl

end LineScript
