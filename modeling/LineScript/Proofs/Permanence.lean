import LineScript.Proofs.History

/-!
# Locked names stay locked

Once a name is bound for good, no act changes its entry, and every declaration of
it that is executed fails with a diagnostic of its own.  So the history of any name
has three parts: it is unbound, then bound any number of times, then locked with one
entry that is its last.
-/

namespace LineScript

/-! ## Along a path -/

theorem Succeeds.of_locked {entry : Entry} (locked : entry.mutability = .immutable)
    {binding : Option Entry} (succeeds : Succeeds (some entry) binding) :
    binding = some entry := by
  cases succeeds with
  | same => rfl
  | again new free =>
      rw [locked] at free
      contradiction

theorem Scope.LeadsTo.get?_of_locked {earlier later : Scope} (leads : earlier.LeadsTo later)
    {name : String} {entry : Entry} (bound : earlier.get? name = some entry)
    (locked : entry.mutability = .immutable) : later.get? name = some entry := by
  have succeeds := leads name
  rw [bound] at succeeds
  exact succeeds.of_locked locked

theorem Path.get?_of_locked {start finish : Scope} {stages : List Scope}
    (path : Path start finish stages) {name : String} {entry : Entry}
    (bound : start.get? name = some entry) (locked : entry.mutability = .immutable)
    {stage : Scope} (member : stage ∈ stages) : stage.get? name = some entry := by
  refine path.chain.induction (fun scope => scope.get? name = some entry) stages ?_ ?_ stage member
  · intro earlier later leads held
    exact leads.get?_of_locked held locked
  · intro nonempty
    have head := path.head
    rw [List.head?_eq_some_head nonempty] at head
    rw [Option.some.inj head]
    exact bound

theorem Path.get?_finish_of_locked {start finish : Scope} {stages : List Scope}
    (path : Path start finish stages) {name : String} {entry : Entry}
    (bound : start.get? name = some entry) (locked : entry.mutability = .immutable) :
    finish.get? name = some entry :=
  path.get?_of_locked bound locked (List.mem_of_getLast? path.last)

/-! ## Executions of a declaration -/

/-- A declaration of the name that evaluation comes to ends it there, with a diagnostic
that gives the name and the span, and the name is never declared. -/
def Program.Refuses (name : String) (scope : Scope) (program : Program) (events : List Event)
    (failure : Option Diagnostic) : Prop :=
  (∀ before declaration span after,
    program = before ++ .declare declaration span :: after → declaration.name = name →
    (evaluate scope before).failure = none →
    events = (evaluate scope before).events ∧ failure = some (.locked name span)) ∧
  ∀ entry, Event.declared name entry ∉ events

def Act.Refuses (name : String) (scope : Scope) : Act → Prop
  | .line mode text => ∀ program, Program.ofTokens (Token.ofLine mode text) = .ok program →
      program.Refuses name scope (interpret mode text scope).outcome.events
        (interpret mode text scope).outcome.failure
  | .declare other entry span => other = name →
      scope.declare other entry span = .error (.locked name span)
  | .evaluate programs => ∀ earlier program later, programs = earlier ++ program :: later →
      ∃ evaluation, (Program.evaluateAll scope programs)[earlier.length]? = some evaluation ∧
        program.Refuses name (Program.scopeAfter scope earlier) evaluation.events
          evaluation.failure

theorem Program.declared_notMem_events {name : String} {scope : Scope} {entry : Entry}
    (bound : scope.get? name = some entry) (locked : entry.mutability = .immutable)
    (program : Program) (other : Entry) :
    Event.declared name other ∉ (evaluate scope program).events := by
  have keeps : program.Keeps fun later => later.get? name = some entry :=
    fun statement _ before next event held executed =>
      (Statement.leadsTo_of_execute executed).get?_of_locked held locked
  intro member
  obtain ⟨statement, -, before, next, held, executed⟩ := keeps.exists_of_mem_events bound member
  rcases Statement.execute_eq_ok_cases executed with
    ⟨declaration, _, -, free, -, same⟩ | ⟨argument, _, -, -, same⟩
  · obtain ⟨rfl, -⟩ := Event.declared.inj same
    have clash := Scope.isLocked_eq_false_iff.mp free entry held
    rw [locked] at clash
    contradiction
  · exact argument.event_ne_declared before name other same.symm

theorem Program.refuses_of_locked {name : String} {scope : Scope} {entry : Entry}
    (bound : scope.get? name = some entry) (locked : entry.mutability = .immutable)
    (program : Program) :
    program.Refuses name scope (evaluate scope program).events (evaluate scope program).failure := by
  constructor
  · rintro before declaration span after rfl rfl completed
    have held := (path scope before).get?_finish_of_locked bound locked
    have refused := Statement.execute_declare_of_locked
      (Scope.isLocked_eq_true_iff.mpr ⟨entry, held, locked⟩) span
    rw [evaluate_append completed, evaluate_of_error refused]
    simp
  · exact declared_notMem_events bound locked program

theorem Program.evaluateAll_getElem? (scope : Scope) (earlier : List Program) (program : Program)
    (later : List Program) :
    (evaluateAll scope (earlier ++ program :: later))[earlier.length]? =
      some (program.evaluate (scopeAfter scope earlier)) := by
  induction earlier generalizing scope with
  | nil => simp [evaluateAll]
  | cons first rest ih => simpa [evaluateAll] using ih (first.evaluate scope).scope

theorem Act.refuses_of_locked {name : String} {scope : Scope} {entry : Entry}
    (bound : scope.get? name = some entry) (locked : entry.mutability = .immutable) (act : Act) :
    act.Refuses name scope := by
  cases act with
  | line mode text =>
      intro program read
      rw [interpret_of_ok read, Outcome.events_ofEvaluation, Outcome.failure_ofEvaluation]
      exact program.refuses_of_locked bound locked
  | declare other given span =>
      rintro rfl
      exact Scope.declare_of_locked (Scope.isLocked_eq_true_iff.mpr ⟨entry, bound, locked⟩) _ _
  | evaluate programs =>
      rintro earlier program later rfl
      have held := (Program.pathAll scope earlier).get?_finish_of_locked bound locked
      exact ⟨_, Program.evaluateAll_getElem? scope earlier program later,
        program.refuses_of_locked held locked⟩

/-! ## Histories -/

/-- Unbound at first, then bound any number of times, then locked with one entry. -/
def ThreePart (history : List (Option Entry)) : Prop :=
  ∃ (unbound : Nat) (bound : List Entry) (locked : Nat) (final : Entry),
    history = List.replicate unbound none ++ bound.map some ++
      List.replicate locked (some final) ∧
    (∀ entry ∈ bound, entry.mutability = .mutable) ∧ final.mutability = .immutable

theorem threePart_single (binding : Option Entry) : ThreePart [binding] := by
  cases binding with
  | none => exact ⟨1, [], 0, ⟨.immutable, .void, .void⟩, rfl, by simp, rfl⟩
  | some entry =>
      cases mutability : entry.mutability with
      | mutable =>
          exact ⟨0, [entry], 0, ⟨.immutable, .void, .void⟩, rfl, by simp [mutability], rfl⟩
      | immutable => exact ⟨0, [], 1, entry, rfl, by simp, mutability⟩

/-- A history that begins with a binding has no unbound part. -/
theorem ThreePart.of_some {entry : Entry} {rest : List (Option Entry)}
    (parts : ThreePart (some entry :: rest)) :
    ∃ (bound : List Entry) (locked : Nat) (final : Entry),
      some entry :: rest = bound.map some ++ List.replicate locked (some final) ∧
      (∀ entry ∈ bound, entry.mutability = .mutable) ∧ final.mutability = .immutable := by
  obtain ⟨unbound, bound, locked, final, shape, free, immutable⟩ := parts
  cases unbound with
  | zero => exact ⟨bound, locked, final, by simpa using shape, free, immutable⟩
  | succ unbound => simp [List.replicate_succ] at shape

theorem ThreePart.cons {binding next : Option Entry} {rest : List (Option Entry)}
    (succeeds : Succeeds binding next) (parts : ThreePart (next :: rest)) :
    ThreePart (binding :: next :: rest) := by
  cases binding with
  | none =>
      obtain ⟨unbound, bound, locked, final, shape, free, immutable⟩ := parts
      exact ⟨unbound + 1, bound, locked, final, by rw [shape]; rfl, free, immutable⟩
  | some entry =>
      cases mutability : entry.mutability with
      | mutable =>
          obtain ⟨after, rfl⟩ : ∃ after, next = some after := by
            cases succeeds with
            | same => exact ⟨entry, rfl⟩
            | again new => exact ⟨new, rfl⟩
          obtain ⟨bound, locked, final, shape, free, immutable⟩ := parts.of_some
          refine ⟨0, entry :: bound, locked, final, by rw [shape]; rfl, ?_, immutable⟩
          intro other member
          rcases List.mem_cons.mp member with rfl | member
          · exact mutability
          · exact free other member
      | immutable =>
          obtain rfl := succeeds.of_locked mutability
          obtain ⟨bound, locked, final, shape, free, immutable⟩ := parts.of_some
          cases bound with
          | cons first bound =>
              -- The next binding is locked, so it is none of those that can be replaced.
              obtain ⟨same, -⟩ := List.cons.inj shape
              have clash := free first List.mem_cons_self
              rw [← Option.some.inj same, mutability] at clash
              contradiction
          | nil =>
              cases locked with
              | zero => simp at shape
              | succ locked =>
                  obtain ⟨same, -⟩ := List.cons.inj shape
                  refine ⟨0, [], locked + 2, final, ?_, by simp, immutable⟩
                  rw [shape, same]
                  rfl

theorem threePart_of_isChain {stages : List Scope} (nonempty : stages ≠ [])
    (chain : stages.IsChain Scope.LeadsTo) (name : String) :
    ThreePart (stages.map (·.get? name)) := by
  induction stages with
  | nil => contradiction
  | cons stage rest ih =>
      cases rest with
      | nil => exact threePart_single _
      | cons next rest =>
          obtain ⟨leads, chain⟩ := List.isChain_cons_cons.mp chain
          exact (ih (List.cons_ne_nil _ _) chain).cons (leads name)

/-- A locked name keeps its entry through every stage of every sequence of acts, and each
declaration of it is refused; every name is unbound, then bound, then locked. -/
theorem locked_entry_permanent_and_threePart (scope : Scope) (acts : List Act) (name : String) :
    (∀ entry, scope.get? name = some entry → entry.mutability = .immutable →
      (Act.applyAll scope acts).get? name = some entry ∧
      (∀ stage ∈ Act.stagesAll scope acts, stage.get? name = some entry) ∧
      ∀ earlier act later, acts = earlier ++ act :: later →
        act.Refuses name (Act.applyAll scope earlier)) ∧
    ThreePart ((Act.stagesAll scope acts).map (·.get? name)) := by
  have path := Act.pathAll scope acts
  constructor
  · intro entry bound locked
    refine ⟨path.get?_finish_of_locked bound locked, ?_, ?_⟩
    · intro stage member
      exact path.get?_of_locked bound locked member
    · rintro earlier act later rfl
      have held := (Act.pathAll scope earlier).get?_finish_of_locked bound locked
      exact act.refuses_of_locked held locked
  · apply threePart_of_isChain _ path.chain
    intro empty
    have head := path.head
    rw [empty] at head
    contradiction

theorem locked_entry_permanent_after_set :
    let entry : Entry := ⟨.immutable, .str, .str "hi"⟩
    let scope := Scope.empty.bind "y" entry
    let acts : List Act :=
      [.line .annotating "let y = 10", .declare "y" ⟨.mutable, .int, .int 1⟩ ⟨0, 3⟩,
        .evaluate [[.declare ⟨.immutable, "y", none, none⟩ ⟨0, 5⟩]]]
    scope.get? "y" = some entry ∧ entry.mutability = .immutable ∧
      (Act.applyAll scope acts).get? "y" = some entry ∧
      (interpret .annotating "let y = 10" scope).outcome.failure =
        some (.locked "y" ⟨0, 10⟩) := by
  intro entry scope acts
  have bound : scope.get? "y" = some entry := by simp [scope, Scope.get?_bind]
  obtain ⟨permanent, -, refused⟩ :=
    (locked_entry_permanent_and_threePart scope acts "y").1 entry bound rfl
  have read : Program.ofTokens (Token.ofLine .annotating "let y = 10") =
      .ok [.declare ⟨.mutable, "y", none, some ⟨.int 10, ⟨8, 10⟩⟩⟩ ⟨0, 10⟩] := by
    decide +kernel
  refine ⟨bound, rfl, permanent, ?_⟩
  exact ((refused [] _ _ rfl _ read).1 [] _ _ [] rfl rfl rfl).2

end LineScript
