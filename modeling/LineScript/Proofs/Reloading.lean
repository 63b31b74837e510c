import LineScript.Proofs.Rebuilding

/-!
# Lines interpreted again

What a line does to a scope, and where it ends, depends on the locked names only.  Lines
without the keyword that locks a name leave these as they were, so in a second pass each
line runs as far as in the first, and the same bindings are made in the same order.  The
scope holds the last of them already.
-/

namespace LineScript

/-! ## Locked names -/

/-- The same names are locked, whatever else the scopes bind. -/
def Scope.SameLocks (left right : Scope) : Prop := ∀ name, left.isLocked name = right.isLocked name

theorem Scope.isLocked_bind (scope : Scope) (name : String) (entry : Entry) (other : String) :
    (scope.bind name entry).isLocked other =
      if name = other then entry.mutability == .immutable else scope.isLocked other := by
  unfold isLocked
  rw [get?_bind]
  by_cases same : name = other
  · simp [same]
  · simp [same]

namespace Scope.SameLocks

variable {left middle right : Scope}

theorem refl (scope : Scope) : scope.SameLocks scope := fun _ => rfl

theorem symm (same : left.SameLocks right) : right.SameLocks left := fun name => (same name).symm

theorem trans (first : left.SameLocks middle) (second : middle.SameLocks right) :
    left.SameLocks right := fun name => (first name).trans (second name)

theorem bind (same : left.SameLocks right) (name : String) (entry : Entry) :
    (left.bind name entry).SameLocks (right.bind name entry) := by
  intro other
  rw [isLocked_bind, isLocked_bind, same other]

theorem bind_mutable {scope : Scope} {name : String} {entry : Entry}
    (free : scope.isLocked name = false) (mutability : entry.mutability = .mutable) :
    (scope.bind name entry).SameLocks scope := by
  intro other
  rw [isLocked_bind]
  split
  next same => rw [← same, free, mutability]; rfl
  next => rfl

end Scope.SameLocks

/-! ## Evaluations under the same locks -/

/-- Two evaluations that run equally far and make the same bindings.  What they print may
differ. -/
structure Evaluation.Alike (first second : Evaluation) : Prop where
  failure : first.failure = second.failure
  length : first.events.length = second.events.length
  bindings : first.events.filterMap Event.binding? = second.events.filterMap Event.binding?
  locks : first.scope.SameLocks second.scope

theorem Evaluation.Alike.cons {first second : Evaluation} (alike : first.Alike second)
    {event other : Event} (binding : event.binding? = other.binding?) :
    Alike { first with events := event :: first.events }
      { second with events := other :: second.events } where
  failure := alike.failure
  length := congrArg Nat.succ alike.length
  bindings := by rw [List.filterMap_cons, List.filterMap_cons, binding, alike.bindings]
  locks := alike.locks

theorem Program.evaluate_alike {left right : Scope} (same : left.SameLocks right)
    (program : Program) : (program.evaluate left).Alike (program.evaluate right) := by
  induction program generalizing left right with
  | nil => exact ⟨rfl, rfl, rfl, same⟩
  | cons statement rest ih =>
      cases statement with
      | declare declaration span =>
          cases locked : left.isLocked declaration.name with
          | true =>
              have there : right.isLocked declaration.name = true := by rw [← same, locked]
              rw [evaluate_of_error (Statement.execute_declare_of_locked locked span),
                evaluate_of_error (Statement.execute_declare_of_locked there span)]
              exact ⟨rfl, rfl, rfl, same⟩
          | false =>
              have there : right.isLocked declaration.name = false := by rw [← same, locked]
              rw [evaluate_of_ok (Statement.execute_declare_of_free locked span),
                evaluate_of_ok (Statement.execute_declare_of_free there span)]
              exact (ih (same.bind _ _)).cons rfl
      | print argument span =>
          have silent : (argument.event left).binding? = (argument.event right).binding? := by
            rw [argument.binding?_event, argument.binding?_event]
          exact (ih same).cons silent

theorem Program.sameLocks_evaluate (scope : Scope) {program : Program}
    (mutable : ∀ declaration span, .declare declaration span ∈ program →
      declaration.mutability = .mutable) :
    (program.evaluate scope).scope.SameLocks scope := by
  have keeps : program.Keeps (·.SameLocks scope) := by
    intro statement member before next event held executed
    rcases Statement.execute_eq_ok_cases executed with
      ⟨declaration, span, rfl, free, rfl, -⟩ | ⟨_, _, -, rfl, -⟩
    · exact (Scope.SameLocks.bind_mutable free (mutable declaration span member)).trans held
    · exact held
  exact keeps.evaluate (.refl scope)

/-! ## Lines under the same locks -/

/-- Two interpretations that end in the same way and with the same error, after as many events
and the same bindings. -/
structure Interpretation.Alike (first second : Interpretation) : Prop where
  kind : first.outcome.SameKind second.outcome
  failure : first.outcome.failure = second.outcome.failure
  length : first.outcome.events.length = second.outcome.events.length
  bindings : first.outcome.events.filterMap Event.binding? =
    second.outcome.events.filterMap Event.binding?

theorem Outcome.sameKind_ofEvaluation {first second : Evaluation}
    (same : first.failure = second.failure) :
    (ofEvaluation first).SameKind (ofEvaluation second) := by
  unfold ofEvaluation
  rw [← same]
  cases first.failure with
  | none => exact .completed _ _
  | some diagnostic => exact .aborted _ _ _ _

theorem interpret_alike {left right : Scope} (same : left.SameLocks right) (mode : Mode)
    (text : String) :
    (interpret mode text left).Alike (interpret mode text right) ∧
      (interpret mode text left).scope.SameLocks (interpret mode text right).scope := by
  cases read : Program.ofTokens (Token.ofLine mode text) with
  | error diagnostic =>
      rw [interpret_of_error read, interpret_of_error read]
      exact ⟨⟨.refl _, rfl, rfl, rfl⟩, same⟩
  | ok program =>
      have alike := program.evaluate_alike same
      rw [interpret_of_ok read, interpret_of_ok read]
      refine ⟨⟨Outcome.sameKind_ofEvaluation alike.failure, ?_, ?_, ?_⟩, alike.locks⟩
      · rw [Outcome.failure_ofEvaluation, Outcome.failure_ofEvaluation, alike.failure]
      · rw [Outcome.events_ofEvaluation, Outcome.events_ofEvaluation, alike.length]
      · rw [Outcome.events_ofEvaluation, Outcome.events_ofEvaluation, alike.bindings]

/-- No token of a line is the keyword that locks a name. -/
def LocksNothing (line : Mode × String) : Prop :=
  ∀ token ∈ Token.ofLine line.1 line.2, token.kind ≠ .setWord

theorem LocksNothing.mutability {line : Mode × String} (free : LocksNothing line)
    {program : Program} (read : Program.ofTokens (Token.ofLine line.1 line.2) = .ok program)
    {declaration : Declaration} {span : Span} (member : .declare declaration span ∈ program) :
    declaration.mutability = .mutable := by
  obtain ⟨derivation, derives, rfl⟩ := Grammar.derivation_of_readFrom read
  obtain ⟨phrase, there, denotes⟩ := Grammar.Derivation.exists_phrase_of_mem member
  obtain ⟨declared, rfl, rfl, -⟩ := Grammar.StatementPhrase.eq_declaration_of_statement denotes
  have part := Grammar.Derivation.tokens_sublist_of_mem there
  rw [derives] at part
  have unlocked := free declared.keyword (part.subset List.mem_cons_self)
  have kind := declared.keyword_kind
  change declared.mutability = .mutable
  cases mutability : declared.mutability with
  | mutable => rfl
  | immutable =>
      rw [mutability] at kind
      exact absurd kind unlocked

theorem LocksNothing.sameLocks_interpret {line : Mode × String} (free : LocksNothing line)
    (scope : Scope) : (interpret line.1 line.2 scope).scope.SameLocks scope := by
  cases read : Program.ofTokens (Token.ofLine line.1 line.2) with
  | error diagnostic =>
      rw [interpret_of_error read]
      exact .refl scope
  | ok program =>
      rw [interpret_of_ok read]
      exact program.sameLocks_evaluate scope fun declaration span => free.mutability read

/-! ## Lists of lines -/

variable {lines : List (Mode × String)}

theorem interpretAll_append (scope : Scope) (first second : List (Mode × String)) :
    interpretAll scope (first ++ second) =
      interpretAll scope first ++ interpretAll (scopeAfterLines scope first) second := by
  induction first generalizing scope with
  | nil => rfl
  | cons line rest ih =>
      rw [List.cons_append, interpretAll, interpretAll, ih, scopeAfterLines_cons]
      rfl

theorem scopeAfterLines_append (scope : Scope) (first second : List (Mode × String)) :
    scopeAfterLines scope (first ++ second) =
      scopeAfterLines (scopeAfterLines scope first) second := by
  induction first generalizing scope with
  | nil => rfl
  | cons line rest ih => rw [List.cons_append, scopeAfterLines_cons, ih, scopeAfterLines_cons]

theorem interpretAll_alike {left right : Scope} (same : left.SameLocks right)
    (lines : List (Mode × String)) :
    List.Forall₂ Interpretation.Alike (interpretAll left lines) (interpretAll right lines) := by
  induction lines generalizing left right with
  | nil => exact .nil
  | cons line rest ih =>
      obtain ⟨alike, later⟩ := interpret_alike same line.1 line.2
      exact .cons alike (ih later)

theorem sameLocks_scopeAfterLines (free : ∀ line ∈ lines, LocksNothing line) (scope : Scope) :
    (scopeAfterLines scope lines).SameLocks scope := by
  induction lines generalizing scope with
  | nil => exact .refl scope
  | cons line rest ih =>
      obtain ⟨first, others⟩ := List.forall_mem_cons.mp free
      rw [scopeAfterLines_cons]
      exact (ih others _).trans (first.sameLocks_interpret scope)

/-! ## Bindings made twice -/

/-- The bindings that some lines made, in order. -/
def bindingsMade (interpretations : List Interpretation) : List (String × Entry) :=
  interpretations.flatMap fun interpretation =>
    interpretation.outcome.events.filterMap Event.binding?

theorem bindingsMade_of_alike {first second : List Interpretation}
    (alike : List.Forall₂ Interpretation.Alike first second) :
    bindingsMade first = bindingsMade second := by
  induction alike with
  | nil => rfl
  | cons head _ ih =>
      rw [bindingsMade, List.flatMap_cons, head.bindings]
      exact congrArg _ ih

theorem interpret_scope_eq_replay (mode : Mode) (text : String) (scope : Scope) :
    (interpret mode text scope).scope =
      scope.replay (interpret mode text scope).outcome.events := by
  cases read : Program.ofTokens (Token.ofLine mode text) with
  | error diagnostic =>
      rw [interpret_of_error read]
      rfl
  | ok program =>
      rw [interpret_of_ok read, Outcome.events_ofEvaluation]
      exact program.scope_evaluate scope

theorem scopeAfterLines_eq_bindAll (scope : Scope) (lines : List (Mode × String)) :
    scopeAfterLines scope lines = scope.bindAll (bindingsMade (interpretAll scope lines)) := by
  induction lines generalizing scope with
  | nil => rfl
  | cons line rest ih =>
      rw [scopeAfterLines_cons, ih]
      nth_rewrite 1 [interpret_scope_eq_replay]
      simp [Scope.replay, Scope.bindAll, bindingsMade, interpretAll]

theorem Scope.bindAll_bindAll (scope : Scope) (bindings : List (String × Entry)) :
    (scope.bindAll bindings).bindAll bindings = scope.bindAll bindings := by
  ext1 name
  rw [get?_bindAll, get?_bindAll]
  cases bindings.reverse.lookup name <;> rfl

/-- Lines without the keyword that locks a name, interpreted a second time, leave the scope as
it is, and every line ends as it did the first time. -/
theorem reload_idempotent (scope : Scope) (lines : List (Mode × String))
    (free : ∀ line ∈ lines, LocksNothing line) :
    let once := scopeAfterLines scope lines
    scopeAfterLines scope (lines ++ lines) = once ∧
    interpretAll scope (lines ++ lines) = interpretAll scope lines ++ interpretAll once lines ∧
    List.Forall₂ Interpretation.Alike (interpretAll scope lines) (interpretAll once lines) := by
  intro once
  have locks : scope.SameLocks once := (sameLocks_scopeAfterLines free scope).symm
  have alike := interpretAll_alike locks lines
  refine ⟨?_, interpretAll_append scope lines lines, alike⟩
  calc
    scopeAfterLines scope (lines ++ lines) = scopeAfterLines once lines :=
      scopeAfterLines_append scope lines lines
    _ = once.bindAll (bindingsMade (interpretAll once lines)) := scopeAfterLines_eq_bindAll once lines
    _ = once.bindAll (bindingsMade (interpretAll scope lines)) := by
      rw [bindingsMade_of_alike alike]
    _ = (scope.bindAll (bindingsMade (interpretAll scope lines))).bindAll
        (bindingsMade (interpretAll scope lines)) := by
      rw [← scopeAfterLines_eq_bindAll]
    _ = once := by rw [Scope.bindAll_bindAll, ← scopeAfterLines_eq_bindAll]

theorem reload_idempotent_at_locked_name :
    let scope := Scope.empty.bind "k" ⟨.immutable, .int, .int 1⟩
    let lines : List (Mode × String) :=
      [(.annotating, "print x let x = 1 let k = 2"), (.terminating, "let x = x"),
        (.annotating, "let x = 3")]
    let once := scopeAfterLines scope lines
    (∀ line ∈ lines, LocksNothing line) ∧
    (interpretAll scope lines).map (·.outcome) =
      [.aborted [.noted (.unbound "x" ⟨6, 7⟩), .declared "x" ⟨.mutable, .int, .int 1⟩]
          (.locked "k" ⟨18, 27⟩),
        .rejected (Refusal.unsupportedValue.atToken ⟨1, 9⟩ ⟨.identifier, "x", 3, ⟨8, 9⟩, .void⟩),
        .completed [.declared "x" ⟨.mutable, .int, .int 3⟩]] ∧
    scopeAfterLines scope (lines ++ lines) = once ∧
    List.Forall₂ Interpretation.Alike (interpretAll scope lines) (interpretAll once lines) := by
  intro scope lines once
  have free : ∀ line ∈ lines, LocksNothing line := by
    unfold LocksNothing
    decide +kernel
  have first : Program.ofTokens (Token.ofLine .annotating "print x let x = 1 let k = 2") =
      .ok [.print (.named "x" ⟨6, 7⟩) ⟨0, 7⟩,
        .declare ⟨.mutable, "x", none, some ⟨.int 1, ⟨16, 17⟩⟩⟩ ⟨8, 17⟩,
        .declare ⟨.mutable, "k", none, some ⟨.int 2, ⟨26, 27⟩⟩⟩ ⟨18, 27⟩] := by
    decide +kernel
  have second : Program.ofTokens (Token.ofLine .terminating "let x = x") =
      .error (Refusal.unsupportedValue.atToken ⟨1, 9⟩
        ⟨.identifier, "x", 3, ⟨8, 9⟩, .void⟩) := by
    decide +kernel
  have third : Program.ofTokens (Token.ofLine .annotating "let x = 3") =
      .ok [.declare ⟨.mutable, "x", none, some ⟨.int 3, ⟨8, 9⟩⟩⟩ ⟨0, 9⟩] := by
    decide +kernel
  obtain ⟨same, -, alike⟩ := reload_idempotent scope lines free
  refine ⟨free, ?_, same, alike⟩
  simp [scope, lines, interpretAll, interpret_of_ok first, interpret_of_error second,
    interpret_of_ok third, Program.evaluate, Statement.execute, Argument.event, Scope.declare,
    Scope.isLocked, Scope.get?_bind, Outcome.ofEvaluation,
    Declaration.entry, Declaration.type, Declaration.value, Value.type]

end LineScript
