import LineScript.Proofs.Permanence
import Mathlib.Data.Finset.Card

/-!
# What events tell

A program runs up to the first declaration of a locked name, or to its end.  Every
statement that runs leaves one event, settled by the statement and by the scope that
the statements before it leave.  The events alone give the scope back: the last
declaration of a name wins, and no name is ever dropped.
-/

namespace LineScript

/-! ## A statement that runs -/

def Declaration.requested (declaration : Declaration) : Entry where
  mutability := declaration.mutability
  type := (declaration.declaredType.or (declaration.initializer.map (·.value.type))).getD .void
  value := (declaration.initializer.map (·.value)).getD .void

def Statement.effect (scope : Scope) : Statement → Scope
  | .declare declaration _ => scope.bind declaration.name declaration.requested
  | .print _ _ => scope

def Statement.event (scope : Scope) : Statement → Event
  | .declare declaration _ => .declared declaration.name declaration.requested
  | .print (.literal given) _ => .printed given.value
  | .print (.named name span) _ =>
      ((scope.get? name).map fun entry => .printed entry.value).getD (.noted (.unbound name span))

def Statement.Violates (scope : Scope) : Statement → Prop
  | .declare declaration _ =>
      ∃ entry, scope.get? declaration.name = some entry ∧ entry.mutability = .immutable
  | .print _ _ => False

theorem Declaration.entry_eq_requested (declaration : Declaration) :
    declaration.entry = declaration.requested := by
  obtain ⟨mutability, name, declared, initializer⟩ := declaration
  cases declared <;> cases initializer <;> rfl

theorem Argument.event_eq (scope : Scope) (argument : Argument) (span : Span) :
    argument.event scope = (Statement.print argument span).event scope := by
  cases argument with
  | literal given => rfl
  | named name place =>
      simp only [Argument.event, Statement.event]
      cases scope.get? name <;> rfl

theorem Statement.execute_of_violates {scope : Scope} {statement : Statement}
    (violates : statement.Violates scope) :
    ∃ declaration span, statement = .declare declaration span ∧
      statement.execute scope = .error (.locked declaration.name span) := by
  cases statement with
  | declare declaration span =>
      have locked := Scope.isLocked_eq_true_iff.mpr violates
      exact ⟨declaration, span, rfl, execute_declare_of_locked locked span⟩
  | print argument span => exact violates.elim

theorem Statement.execute_of_not_violates {scope : Scope} {statement : Statement}
    (runs : ¬ statement.Violates scope) :
    statement.execute scope = .ok (statement.effect scope, statement.event scope) := by
  cases statement with
  | declare declaration span =>
      have free : scope.isLocked declaration.name = false := by
        rw [Bool.eq_false_iff]
        exact fun locked => runs (Scope.isLocked_eq_true_iff.mp locked)
      rw [execute_declare_of_free free, declaration.entry_eq_requested]
      rfl
  | print argument span => rw [execute, argument.event_eq scope span, effect]

/-! ## How far a program runs -/

namespace Program

/-- The scope behind statements that all run. -/
def effect (scope : Scope) (program : Program) : Scope := program.foldl Statement.effect scope

/-- Some number of statements run.  Then the program is over, or the next statement is
the first that declares a locked name. -/
structure StopsBehind (scope : Scope) (program : Program) (failure : Option Diagnostic)
    (count : Nat) : Prop where
  runs : ∀ index statement, index < count → program[index]? = some statement →
    ¬ statement.Violates (effect scope (program.take index))
  ending : count = program.length ∧ failure = none ∨
    ∃ declaration span, program[count]? = some (.declare declaration span) ∧
      (Statement.declare declaration span).Violates (effect scope (program.take count)) ∧
      failure = some (.locked declaration.name span)

/-- One event for each of the statements that run, each settled by its statement and the
statements before it. -/
structure Recorded (scope : Scope) (program : Program) (evaluation : Evaluation)
    (count : Nat) : Prop where
  length : evaluation.events.length = count
  event : ∀ index, index < count → evaluation.events[index]? =
    program[index]?.map fun statement => statement.event (effect scope (program.take index))
  scope : evaluation.scope = effect scope (program.take count)

variable {scope : Scope} {program : Program}

theorem StopsBehind.le {failure : Option Diagnostic} {count : Nat}
    (stops : StopsBehind scope program failure count) : count ≤ program.length := by
  rcases stops.ending with ⟨rfl, -⟩ | ⟨_, _, found, -⟩
  · exact Nat.le_refl _
  · exact Nat.le_of_lt (List.getElem?_eq_some_iff.mp found).1

theorem StopsBehind.not_lt {failure other : Option Diagnostic} {first second : Nat}
    (stops : StopsBehind scope program failure first)
    (later : StopsBehind scope program other second) : ¬ first < second := by
  intro before
  have bound := later.le
  rcases stops.ending with ⟨done, -⟩ | ⟨_, _, found, violates, -⟩
  · omega
  · exact later.runs first _ before found violates

theorem StopsBehind.unique {failure other : Option Diagnostic} {first second : Nat}
    (stops : StopsBehind scope program failure first)
    (again : StopsBehind scope program other second) : first = second := by
  have ahead := stops.not_lt again
  have behind := again.not_lt stops
  omega

theorem StopsBehind.cons {failure : Option Diagnostic} {count : Nat} {statement : Statement}
    (runs : ¬ statement.Violates scope)
    (stops : StopsBehind (statement.effect scope) program failure count) :
    StopsBehind scope (statement :: program) failure (count + 1) := by
  refine ⟨?_, ?_⟩
  · intro index other below found
    cases index with
    | zero =>
        obtain rfl : statement = other := by simpa using found
        exact runs
    | succ index => exact stops.runs index other (by omega) (by simpa using found)
  · rcases stops.ending with ⟨rfl, completed⟩ | next
    · exact .inl ⟨rfl, completed⟩
    · exact .inr (by simpa [effect] using next)

theorem Recorded.cons {evaluation : Evaluation} {count : Nat} {statement : Statement}
    (recorded : Recorded (statement.effect scope) program evaluation count) :
    Recorded scope (statement :: program)
      { evaluation with events := statement.event scope :: evaluation.events } (count + 1) := by
  refine ⟨?_, ?_, ?_⟩
  · simp [recorded.length]
  · intro index below
    cases index with
    | zero => rfl
    | succ index => simpa [effect] using recorded.event index (by omega)
  · simpa [effect] using recorded.scope

theorem evaluate_stops_recorded (scope : Scope) (program : Program) :
    ∃ count, StopsBehind scope program (evaluate scope program).failure count ∧
      Recorded scope program (evaluate scope program) count := by
  induction program generalizing scope with
  | nil => exact ⟨0, ⟨by simp, .inl ⟨rfl, rfl⟩⟩, rfl, by simp, rfl⟩
  | cons statement rest ih =>
      by_cases violates : statement.Violates scope
      · obtain ⟨declaration, span, rfl, failed⟩ := Statement.execute_of_violates violates
        rw [evaluate_of_error failed]
        exact ⟨0, ⟨by simp, .inr ⟨declaration, span, rfl, violates, rfl⟩⟩, rfl, by simp, rfl⟩
      · obtain ⟨count, stops, recorded⟩ := ih (statement.effect scope)
        rw [evaluate_of_ok (Statement.execute_of_not_violates violates)]
        exact ⟨count + 1, stops.cons violates, recorded.cons⟩

end Program

/-! ## Scopes from events -/

/-- Bind names one after the other, so that the last binding of a name wins. -/
def Scope.bindAll (scope : Scope) (bindings : List (String × Entry)) : Scope :=
  bindings.foldl (fun scope binding => scope.bind binding.1 binding.2) scope

def Event.binding? : Event → Option (String × Entry)
  | .declared name entry => some (name, entry)
  | .printed _ | .noted _ => none

/-- The scope overwritten by the declarations among some events, in order. -/
def Scope.replay (scope : Scope) (events : List Event) : Scope :=
  scope.bindAll (events.filterMap Event.binding?)

theorem Argument.binding?_event (scope : Scope) (argument : Argument) :
    (argument.event scope).binding? = none := by
  cases argument with
  | literal given => rfl
  | named name span =>
      simp only [event]
      cases scope.get? name <;> rfl

theorem Statement.replay_event (scope : Scope) (statement : Statement) (events : List Event) :
    scope.replay (statement.event scope :: events) = (statement.effect scope).replay events := by
  cases statement with
  | declare declaration span => rfl
  | print argument span =>
      rw [← argument.event_eq scope span, Scope.replay,
        List.filterMap_cons_none (argument.binding?_event scope)]
      rfl

theorem Program.scope_evaluate (scope : Scope) (program : Program) :
    (evaluate scope program).scope = scope.replay (evaluate scope program).events := by
  induction program generalizing scope with
  | nil => rfl
  | cons statement rest ih =>
      by_cases violates : statement.Violates scope
      · obtain ⟨_, _, -, failed⟩ := Statement.execute_of_violates violates
        rw [evaluate_of_error failed]
        rfl
      · rw [evaluate_of_ok (Statement.execute_of_not_violates violates), statement.replay_event]
        exact ih (statement.effect scope)

theorem Scope.replay_append (scope : Scope) (first second : List Event) :
    scope.replay (first ++ second) = (scope.replay first).replay second := by
  simp [replay, bindAll]

theorem Program.scopeAfter_eq_replay (scope : Scope) (programs : List Program) :
    scopeAfter scope programs =
      scope.replay ((evaluateAll scope programs).flatMap (·.events)) := by
  induction programs generalizing scope with
  | nil => rfl
  | cons program rest ih =>
      rw [scopeAfter_cons, ih, evaluateAll, List.flatMap_cons, Scope.replay_append,
        ← program.scope_evaluate]

namespace Scope

variable (scope : Scope) (bindings : List (String × Entry))

theorem bindAll_concat (name : String) (entry : Entry) :
    scope.bindAll (bindings ++ [(name, entry)]) = (scope.bindAll bindings).bind name entry := by
  simp [bindAll]

theorem get?_bindAll (name : String) :
    (scope.bindAll bindings).get? name =
      (bindings.reverse.lookup name).or (scope.get? name) := by
  induction bindings using List.reverseRecOn with
  | nil => rfl
  | append_singleton bindings binding ih =>
      obtain ⟨other, entry⟩ := binding
      rw [bindAll_concat, get?_bind, ih, List.reverse_append]
      by_cases same : other = name
      · simp [same]
      · have different : (name == other) = false := by simpa using Ne.symm same
        simp [same, different, List.lookup_cons]

theorem isSome_get?_bindAll (name : String) :
    ((scope.bindAll bindings).get? name).isSome ↔
      (scope.get? name).isSome ∨ name ∈ bindings.map (·.1) := by
  induction bindings using List.reverseRecOn with
  | nil => simp [bindAll]
  | append_singleton bindings binding ih =>
      obtain ⟨other, entry⟩ := binding
      rw [bindAll_concat, get?_bind]
      by_cases same : other = name
      · simp [same]
      · simp [same, ih, Ne.symm same]

theorem size_bind (name : String) (entry : Entry) :
    (scope.bind name entry).size =
      if (scope.get? name).isSome then scope.size else scope.size + 1 := by
  simp [bind, size, get?, Std.ExtTreeMap.size_insert]

/-- The names among some bindings that a scope does not bind itself. -/
def newNames : Finset String :=
  (bindings.map (·.1)).toFinset.filter fun name => scope.get? name = none

theorem newNames_concat (name : String) (entry : Entry) :
    scope.newNames (bindings ++ [(name, entry)]) =
      if scope.get? name = none then insert name (scope.newNames bindings)
      else scope.newNames bindings := by
  have names : ((bindings ++ [(name, entry)]).map (·.1)).toFinset =
      insert name (bindings.map (·.1)).toFinset := by
    ext other
    simp
  rw [newNames, names, Finset.filter_insert]
  rfl

theorem size_bindAll :
    (scope.bindAll bindings).size = scope.size + (scope.newNames bindings).card := by
  induction bindings using List.reverseRecOn with
  | nil => rfl
  | append_singleton bindings binding ih =>
      obtain ⟨name, entry⟩ := binding
      have bound := isSome_get?_bindAll scope bindings name
      rw [bindAll_concat, size_bind, newNames_concat, ih]
      cases old : scope.get? name with
      | some _ => simp_all
      | none =>
          by_cases again : name ∈ bindings.map (·.1)
          · have member : name ∈ scope.newNames bindings := by simp_all [newNames]
            rw [if_pos (bound.mpr (.inr again)), if_pos rfl, Finset.insert_eq_of_mem member]
          · have fresh : name ∉ scope.newNames bindings := by simp_all [newNames]
            have free : ¬ ((scope.bindAll bindings).get? name).isSome := by simp_all
            rw [if_neg free, if_pos rfl, Finset.card_insert_of_notMem fresh, Nat.add_assoc]

end Scope

/-! ## Programs in turn -/

/-- For every program of a list that is evaluated in turn there is one number of statements
that run, and these leave one event each.  The scope left in the end is the first one
overwritten by all declarations: each name has the entry it was last declared
with, no name is dropped, and the size grows by the names that are new. -/
theorem evaluateAll_stops_and_replays (scope : Scope) (programs : List Program) :
    (∀ earlier program later, programs = earlier ++ program :: later →
      ∃ evaluation, (Program.evaluateAll scope programs)[earlier.length]? = some evaluation ∧
        let start := Program.scopeAfter scope earlier
        (∃! count, program.StopsBehind start evaluation.failure count) ∧
        ∀ count, program.StopsBehind start evaluation.failure count →
          program.Recorded start evaluation count) ∧
    let events := (Program.evaluateAll scope programs).flatMap (·.events)
    let bindings := events.filterMap Event.binding?
    let final := Program.scopeAfter scope programs
    final = scope.replay events ∧
    (∀ name, final.get? name = (bindings.reverse.lookup name).or (scope.get? name)) ∧
    (∀ name, (final.get? name).isSome ↔
      (scope.get? name).isSome ∨ name ∈ bindings.map (·.1)) ∧
    final.size = scope.size + (scope.newNames bindings).card := by
  constructor
  · rintro earlier program later rfl
    refine ⟨_, Program.evaluateAll_getElem? scope earlier program later, ?_⟩
    obtain ⟨count, stops, recorded⟩ :=
      Program.evaluate_stops_recorded (Program.scopeAfter scope earlier) program
    refine ⟨⟨count, stops, fun other again => again.unique stops⟩, ?_⟩
    intro other again
    rwa [again.unique stops]
  · intro events bindings final
    have replayed : final = scope.bindAll bindings := Program.scopeAfter_eq_replay scope programs
    rw [replayed]
    exact ⟨rfl, scope.get?_bindAll bindings, scope.isSome_get?_bindAll bindings,
      scope.size_bindAll bindings⟩

theorem evaluateAll_stops_at_locked_name :
    let program : Program :=
      [.declare ⟨.immutable, "y", none, some ⟨.str "hi", ⟨8, 12⟩⟩⟩ ⟨0, 12⟩,
        .print (.named "z" ⟨19, 20⟩) ⟨13, 20⟩, .declare ⟨.mutable, "y", none, none⟩ ⟨21, 26⟩]
    ∃ evaluation, (Program.evaluateAll .empty [program])[0]? = some evaluation ∧
      evaluation.failure = some (.locked "y" ⟨21, 26⟩) ∧
      program.StopsBehind .empty evaluation.failure 2 ∧
      program.Recorded .empty evaluation 2 := by
  intro program
  obtain ⟨evaluation, found, -, recorded⟩ :=
    (evaluateAll_stops_and_replays .empty [program]).1 [] program [] rfl
  have failed : evaluation.failure = some (.locked "y" ⟨21, 26⟩) := by
    obtain rfl : program.evaluate .empty = evaluation := Option.some.inj found
    simp [program, Program.evaluate, Statement.execute, Scope.declare, Scope.isLocked,
      Scope.get?_bind, Declaration.entry]
  have stops : program.StopsBehind .empty evaluation.failure 2 := by
    refine ⟨?_, .inr ⟨_, _, rfl, ?_, failed⟩⟩
    · intro index statement below named
      obtain rfl | rfl : index = 0 ∨ index = 1 := by omega
      · cases named
        simp [Statement.Violates, Program.effect]
      · cases named
        exact not_false
    · simp [program, Statement.Violates, Program.effect, Statement.effect, Scope.get?_bind,
        Declaration.requested]
  exact ⟨evaluation, found, failed, stops, recorded 2 stops⟩

end LineScript
