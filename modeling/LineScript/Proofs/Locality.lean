import LineScript.Proofs.History
import Mathlib.Data.List.Basic

/-!
# What a line reads and what it changes

A statement looks up the name it declares or prints and changes the binding of the name
it declares.  So a line does the same on all scopes that agree on the names it mentions,
also where it stops early, and leaves every name alone that it does not declare.  Two
lines of which neither declares a name that the other mentions can be interpreted in
either order.
-/

namespace LineScript

/-! ## Names in programs -/

def Statement.declared : Statement → List String
  | .declare declaration _ => [declaration.name]
  | .print _ _ => []

/-- The names that a statement declares or prints. -/
def Statement.mentioned : Statement → List String
  | .declare declaration _ => [declaration.name]
  | .print (.named name _) _ => [name]
  | .print (.literal _) _ => []

def Program.declared (program : Program) : List String := program.flatMap Statement.declared

def Program.mentioned (program : Program) : List String := program.flatMap Statement.mentioned

/-- The names that the program of a line declares.  A line that is no program declares and
mentions none. -/
def declaredNames (mode : Mode) (text : String) : List String :=
  (linePrograms mode text).flatMap Program.declared

def mentionedNames (mode : Mode) (text : String) : List String :=
  (linePrograms mode text).flatMap Program.mentioned

theorem declaredNames_of_ok {mode : Mode} {text : String} {program : Program}
    (read : Program.ofTokens (Token.ofLine mode text) = .ok program) :
    declaredNames mode text = program.declared := by
  simp [declaredNames, linePrograms, read, Except.toOption]

theorem mentionedNames_of_ok {mode : Mode} {text : String} {program : Program}
    (read : Program.ofTokens (Token.ofLine mode text) = .ok program) :
    mentionedNames mode text = program.mentioned := by
  simp [mentionedNames, linePrograms, read, Except.toOption]

theorem Statement.declared_subset_mentioned (statement : Statement) :
    statement.declared ⊆ statement.mentioned := by
  cases statement with
  | declare declaration span => exact List.Subset.refl _
  | print argument span => exact List.nil_subset _

theorem declaredNames_subset_mentionedNames (mode : Mode) (text : String) :
    declaredNames mode text ⊆ mentionedNames mode text := by
  intro name member
  obtain ⟨program, read, within⟩ := List.mem_flatMap.mp member
  obtain ⟨statement, inside, declares⟩ := List.mem_flatMap.mp within
  exact List.mem_flatMap.mpr ⟨program, read,
    List.mem_flatMap.mpr ⟨statement, inside, statement.declared_subset_mentioned declares⟩⟩

/-! ## Names that are not declared -/

theorem Statement.get?_of_execute {scope next : Scope} {statement : Statement} {event : Event}
    (executed : statement.execute scope = .ok (next, event)) {name : String}
    (untouched : name ∉ statement.declared) : next.get? name = scope.get? name := by
  rcases execute_eq_ok_cases executed with
    ⟨declaration, span, rfl, -, rfl, -⟩ | ⟨_, _, -, rfl, -⟩
  · have other : declaration.name ≠ name := by simpa [declared, eq_comm] using untouched
    rw [Scope.get?_bind, if_neg other]
  · rfl

theorem Program.get?_evaluate (scope : Scope) {program : Program} {name : String}
    (untouched : name ∉ program.declared) :
    (program.evaluate scope).scope.get? name = scope.get? name := by
  have keeps : program.Keeps fun later => later.get? name = scope.get? name := by
    intro statement member before next event held executed
    have apart : name ∉ statement.declared := fun declares =>
      untouched (List.mem_flatMap.mpr ⟨statement, member, declares⟩)
    exact (statement.get?_of_execute executed apart).trans held
  exact keeps.evaluate rfl

theorem get?_interpret {mode : Mode} {text : String} (scope : Scope) {name : String}
    (untouched : name ∉ declaredNames mode text) :
    (interpret mode text scope).scope.get? name = scope.get? name := by
  cases read : Program.ofTokens (Token.ofLine mode text) with
  | error diagnostic => rw [interpret_of_error read]
  | ok program =>
      rw [declaredNames_of_ok read] at untouched
      rw [interpret_of_ok read]
      exact Program.get?_evaluate scope untouched

/-! ## Scopes that agree -/

/-- Each of the names is bound to one entry in both scopes, or in neither. -/
def Scope.AgreesOn (names : List String) (left right : Scope) : Prop :=
  ∀ name ∈ names, left.get? name = right.get? name

variable {names : List String} {left right : Scope}

theorem Scope.AgreesOn.isLocked (agrees : left.AgreesOn names right) {name : String}
    (member : name ∈ names) : left.isLocked name = right.isLocked name := by
  rw [Scope.isLocked, Scope.isLocked, agrees name member]

theorem Scope.AgreesOn.bind (agrees : left.AgreesOn names right) (name : String) (entry : Entry) :
    (left.bind name entry).AgreesOn names (right.bind name entry) := by
  intro other member
  rw [get?_bind, get?_bind, agrees other member]

theorem Argument.event_of_agrees (agrees : left.AgreesOn names right) {argument : Argument}
    {span : Span} (mentioned : (Statement.print argument span).mentioned ⊆ names) :
    argument.event left = argument.event right := by
  cases argument with
  | literal given => rfl
  | named name place =>
      rw [event, event, agrees name (mentioned List.mem_cons_self)]

/-- What two statements executed on two scopes have in common. -/
inductive ExecutesAlike (names : List String) :
    Except Diagnostic (Scope × Event) → Except Diagnostic (Scope × Event) → Prop
  | failed (diagnostic : Diagnostic) : ExecutesAlike names (.error diagnostic) (.error diagnostic)
  | executed {left right : Scope} (event : Event) (agrees : left.AgreesOn names right) :
      ExecutesAlike names (.ok (left, event)) (.ok (right, event))

theorem Statement.execute_of_agrees (agrees : left.AgreesOn names right) {statement : Statement}
    (mentioned : statement.mentioned ⊆ names) :
    ExecutesAlike names (statement.execute left) (statement.execute right) := by
  cases statement with
  | declare declaration span =>
      have same := agrees.isLocked (mentioned List.mem_cons_self)
      cases locked : right.isLocked declaration.name with
      | true =>
          rw [execute_declare_of_locked locked, execute_declare_of_locked (same.trans locked)]
          exact .failed _
      | false =>
          rw [execute_declare_of_free locked, execute_declare_of_free (same.trans locked)]
          exact .executed _ (agrees.bind _ _)
  | print argument span =>
      rw [execute, execute, Argument.event_of_agrees agrees mentioned]
      exact .executed _ agrees

theorem Program.evaluate_of_agrees (agrees : left.AgreesOn names right) {program : Program}
    (mentioned : program.mentioned ⊆ names) :
    (program.evaluate left).events = (program.evaluate right).events ∧
    (program.evaluate left).failure = (program.evaluate right).failure ∧
    (program.evaluate left).scope.AgreesOn names (program.evaluate right).scope := by
  induction program generalizing left right with
  | nil => exact ⟨rfl, rfl, agrees⟩
  | cons statement rest ih =>
      rw [Program.mentioned, List.flatMap_cons, List.append_subset] at mentioned
      have alike := Statement.execute_of_agrees agrees mentioned.1
      generalize leftResult : statement.execute left = leftEnd at alike
      generalize rightResult : statement.execute right = rightEnd at alike
      cases alike with
      | failed diagnostic =>
          rw [evaluate_of_error leftResult, evaluate_of_error rightResult]
          exact ⟨rfl, rfl, agrees⟩
      | executed event agreesNext =>
          obtain ⟨events, failure, agreesLater⟩ := ih agreesNext mentioned.2
          rw [evaluate_of_ok leftResult, evaluate_of_ok rightResult]
          exact ⟨congrArg (event :: ·) events, failure, agreesLater⟩

/-! ## Lines on scopes that agree -/

structure Interpretation.SameOutcome (one other : Interpretation) : Prop where
  tokens : one.tokens = other.tokens
  outcome : one.outcome = other.outcome

variable {mode : Mode} {text : String}

theorem interpret_of_agrees (agrees : left.AgreesOn (mentionedNames mode text) right) :
    (interpret mode text left).SameOutcome (interpret mode text right) ∧
      (interpret mode text left).scope.AgreesOn (mentionedNames mode text)
        (interpret mode text right).scope := by
  cases read : Program.ofTokens (Token.ofLine mode text) with
  | error diagnostic =>
      rw [interpret_of_error read, interpret_of_error read]
      exact ⟨⟨rfl, rfl⟩, agrees⟩
  | ok program =>
      have within : program.mentioned ⊆ mentionedNames mode text := by
        rw [mentionedNames_of_ok read]
        exact List.Subset.refl _
      obtain ⟨events, failure, agreesLater⟩ := Program.evaluate_of_agrees agrees within
      rw [interpret_of_ok read, interpret_of_ok read]
      refine ⟨⟨rfl, ?_⟩, agreesLater⟩
      simp only [Outcome.ofEvaluation, events, failure]

theorem agreesOn_interpret {names : List String} (apart : (declaredNames mode text).Disjoint names)
    (scope : Scope) : (interpret mode text scope).scope.AgreesOn names scope := by
  intro name member
  exact get?_interpret scope fun declared => apart declared member

/-- Neither line declares a name that the other mentions. -/
structure Independent (first second : Mode × String) : Prop where
  ahead : (declaredNames first.1 first.2).Disjoint (mentionedNames second.1 second.2)
  behind : (declaredNames second.1 second.2).Disjoint (mentionedNames first.1 first.2)

theorem Independent.symm {first second : Mode × String} (independent : Independent first second) :
    Independent second first :=
  ⟨independent.behind, independent.ahead⟩

variable {first second : Mode × String}

/-- Behind an independent line, a line does what it does in that line's place. -/
theorem Independent.interpret_after (independent : Independent first second) (scope : Scope) :
    let alone := interpret first.1 first.2 scope
    let after := interpret first.1 first.2 (interpret second.1 second.2 scope).scope
    after.SameOutcome alone ∧
      after.scope.AgreesOn (mentionedNames first.1 first.2) alone.scope :=
  interpret_of_agrees (agreesOn_interpret independent.behind scope)

theorem Independent.get?_of_declared (independent : Independent first second) (scope : Scope)
    {name : String} (declared : name ∈ declaredNames first.1 first.2) :
    (interpret second.1 second.2 (interpret first.1 first.2 scope).scope).scope.get? name =
      (interpret first.1 first.2 (interpret second.1 second.2 scope).scope).scope.get? name := by
  have mentioned := declaredNames_subset_mentionedNames first.1 first.2 declared
  have untouched : name ∉ declaredNames second.1 second.2 := fun clash =>
    independent.behind clash mentioned
  rw [get?_interpret _ untouched]
  exact ((independent.interpret_after scope).2 name mentioned).symm

theorem Independent.scope_comm (independent : Independent first second) (scope : Scope) :
    (interpret second.1 second.2 (interpret first.1 first.2 scope).scope).scope =
      (interpret first.1 first.2 (interpret second.1 second.2 scope).scope).scope := by
  -- A name is declared by at most one of the lines, and the other leaves it alone.
  apply Scope.ext
  intro name
  by_cases byFirst : name ∈ declaredNames first.1 first.2
  · exact independent.get?_of_declared scope byFirst
  by_cases bySecond : name ∈ declaredNames second.1 second.2
  · exact (independent.symm.get?_of_declared scope bySecond).symm
  · rw [get?_interpret _ bySecond, get?_interpret _ byFirst, get?_interpret _ byFirst,
      get?_interpret _ bySecond]

/-- On scopes that agree on the names a line mentions it has the same outcome, keeps all
names but the declared ones, and leaves scopes that agree again.  Independent lines have
the same outcomes and leave the same scope in either order. -/
theorem interpret_local_and_independent_commute :
    (∀ (mode : Mode) (text : String) (left right : Scope),
      left.AgreesOn (mentionedNames mode text) right →
      (interpret mode text left).SameOutcome (interpret mode text right) ∧
      (∀ name, name ∉ declaredNames mode text →
        (interpret mode text left).scope.get? name = left.get? name ∧
        (interpret mode text right).scope.get? name = right.get? name) ∧
      (interpret mode text left).scope.AgreesOn (mentionedNames mode text)
        (interpret mode text right).scope) ∧
    (∀ (first second : Mode × String) (scope : Scope), Independent first second →
      let one := interpret first.1 first.2 scope
      let two := interpret second.1 second.2 scope
      (interpret second.1 second.2 one.scope).SameOutcome two ∧
      (interpret first.1 first.2 two.scope).SameOutcome one ∧
      (interpret second.1 second.2 one.scope).scope =
        (interpret first.1 first.2 two.scope).scope) := by
  constructor
  · intro mode text left right agrees
    obtain ⟨same, agreesLater⟩ := interpret_of_agrees agrees
    refine ⟨same, fun name untouched => ⟨?_, ?_⟩, agreesLater⟩
    · exact get?_interpret left untouched
    · exact get?_interpret right untouched
  · intro first second scope independent
    exact ⟨(independent.symm.interpret_after scope).1, (independent.interpret_after scope).1,
      independent.scope_comm scope⟩

theorem interpret_commute_at_shared_name :
    let first : Mode × String := (.annotating, "let x;int = 1 print ?y")
    let second : Mode × String := (.terminating, "set z = 1; print y let z")
    let other := Scope.empty.bind "w" ⟨.immutable, .void, .void⟩
    (Scope.empty.AgreesOn (mentionedNames first.1 first.2) other ∧
      (interpret first.1 first.2 .empty).SameOutcome (interpret first.1 first.2 other)) ∧
    Independent first second ∧
    (interpret second.1 second.2 (interpret first.1 first.2 other).scope).scope =
      (interpret first.1 first.2 (interpret second.1 second.2 other).scope).scope := by
  intro first second other
  have firstDeclared : declaredNames first.1 first.2 = ["x"] := by decide +kernel
  have firstMentioned : mentionedNames first.1 first.2 = ["x", "y"] := by decide +kernel
  have secondDeclared : declaredNames second.1 second.2 = ["z", "z"] := by decide +kernel
  have secondMentioned : mentionedNames second.1 second.2 = ["z", "y", "z"] := by decide +kernel
  have agrees : Scope.empty.AgreesOn (mentionedNames first.1 first.2) other := by
    intro name member
    obtain rfl | rfl : name = "x" ∨ name = "y" := by simpa [firstMentioned] using member
    · simp [other, Scope.get?_bind]
    · simp [other, Scope.get?_bind]
  have independent : Independent first second := by
    refine ⟨?_, ?_⟩
    · simp [firstDeclared, secondMentioned]
    · simp [secondDeclared, firstMentioned]
  obtain ⟨alike, commute⟩ := interpret_local_and_independent_commute
  exact ⟨⟨agrees, (alike first.1 first.2 .empty other agrees).1⟩, independent,
    (commute first second other independent).2.2⟩

end LineScript
