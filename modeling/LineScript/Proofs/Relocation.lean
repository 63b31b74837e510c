import LineScript.Proofs.Evaluation
import LineScript.Proofs.Grammar.Reading

/-!
# Programs moved elsewhere in a line

Where tokens stand decides where a program and its diagnostics point, and nothing else.
Tokens that are moved are read as the program moved likewise, and the events of a moved
program are those of the program, moved.
-/

namespace LineScript

/-! ## Moving what points into a line -/

/-- New places for tokens, and new columns for characters. -/
structure Relocation where
  place : Nat → Nat
  column : Nat → Nat

namespace Relocation

def shift (places columns : Nat) : Relocation := ⟨(· + places), (· + columns)⟩

/-- Everything is moved to one place. -/
def erase : Relocation := ⟨fun _ => 0, fun _ => 0⟩

end Relocation

def Span.relocate (relocation : Relocation) (span : Span) : Span :=
  ⟨relocation.column span.start, relocation.column span.stop⟩

def Token.relocate (relocation : Relocation) (token : Token) : Token :=
  { token with
    position := relocation.place token.position
    span := token.span.relocate relocation }

def Literal.relocate (relocation : Relocation) (literal : Literal) : Literal :=
  { literal with span := literal.span.relocate relocation }

def Argument.relocate (relocation : Relocation) : Argument → Argument
  | .literal given => .literal (given.relocate relocation)
  | .named name span => .named name (span.relocate relocation)

def Declaration.relocate (relocation : Relocation) (declaration : Declaration) : Declaration :=
  { declaration with initializer := declaration.initializer.map (·.relocate relocation) }

def Statement.relocate (relocation : Relocation) : Statement → Statement
  | .declare declaration span =>
      .declare (declaration.relocate relocation) (span.relocate relocation)
  | .print argument span => .print (argument.relocate relocation) (span.relocate relocation)

def Program.relocate (relocation : Relocation) (program : Program) : Program :=
  program.map (·.relocate relocation)

def Diagnostic.relocate (relocation : Relocation) (diagnostic : Diagnostic) : Diagnostic :=
  { diagnostic with span := diagnostic.span.relocate relocation }

def Event.relocate (relocation : Relocation) : Event → Event
  | .declared name entry => .declared name entry
  | .printed value => .printed value
  | .noted diagnostic => .noted (diagnostic.relocate relocation)

def Evaluation.relocate (relocation : Relocation) (evaluation : Evaluation) : Evaluation where
  scope := evaluation.scope
  events := evaluation.events.map (·.relocate relocation)
  failure := evaluation.failure.map (·.relocate relocation)

/-! ## Evaluating a moved program -/

variable (relocation : Relocation)

theorem Declaration.entry_relocate (declaration : Declaration) :
    (declaration.relocate relocation).entry = declaration.entry := by
  obtain ⟨mutability, name, declared, initializer⟩ := declaration
  cases declared <;> cases initializer <;> rfl

theorem Argument.event_relocate (scope : Scope) (argument : Argument) :
    (argument.relocate relocation).event scope = (argument.event scope).relocate relocation := by
  cases argument with
  | literal given => rfl
  | named name span =>
      simp only [relocate, event]
      cases scope.get? name <;> rfl

theorem Statement.execute_relocate_of_error {scope : Scope} {statement : Statement}
    {diagnostic : Diagnostic} (failed : statement.execute scope = .error diagnostic) :
    (statement.relocate relocation).execute scope = .error (diagnostic.relocate relocation) := by
  obtain ⟨declaration, span, rfl, locked, rfl⟩ := execute_eq_error_cases failed
  have still : scope.isLocked (declaration.relocate relocation).name = true := locked
  rw [relocate, execute_declare_of_locked still]
  rfl

theorem Statement.execute_relocate_of_ok {scope next : Scope} {statement : Statement}
    {event : Event} (executed : statement.execute scope = .ok (next, event)) :
    (statement.relocate relocation).execute scope = .ok (next, event.relocate relocation) := by
  rcases execute_eq_ok_cases executed with
    ⟨declaration, span, rfl, free, rfl, rfl⟩ | ⟨argument, span, rfl, rfl, rfl⟩
  · have still : scope.isLocked (declaration.relocate relocation).name = false := free
    rw [relocate, execute_declare_of_free still, declaration.entry_relocate]
    rfl
  · rw [relocate, execute, argument.event_relocate]

theorem Program.evaluate_relocate (scope : Scope) (program : Program) :
    evaluate scope (program.relocate relocation) =
      (evaluate scope program).relocate relocation := by
  induction program generalizing scope with
  | nil => rfl
  | cons statement rest ih =>
      change evaluate scope (statement.relocate relocation :: relocate relocation rest) = _
      cases executed : statement.execute scope with
      | error diagnostic =>
          rw [evaluate_of_error executed,
            evaluate_of_error (statement.execute_relocate_of_error relocation executed)]
          rfl
      | ok result =>
          obtain ⟨next, event⟩ := result
          rw [evaluate_of_ok executed,
            evaluate_of_ok (statement.execute_relocate_of_ok relocation executed), ih]
          rfl

/-! ## Reading moved tokens -/

namespace Grammar

def Terminal.relocate {kind : TokenKind} (terminal : Terminal kind) : Terminal kind :=
  ⟨terminal.val.relocate relocation, terminal.property⟩

theorem Denotes.relocate {token : Token} {value : Value} (denotes : Denotes token value) :
    Denotes (token.relocate relocation) value := by
  cases denotes with
  | integer kind read => exact .integer kind read
  | float kind read => exact .float kind read
  | string kind => exact .string kind
  | trueWord kind => exact .trueWord kind
  | falseWord kind => exact .falseWord kind

def LiteralPhrase.relocate (phrase : LiteralPhrase) : LiteralPhrase where
  token := phrase.token.relocate relocation
  value := phrase.value
  denotes := phrase.denotes.relocate relocation

def InitializerPhrase.relocate (phrase : InitializerPhrase) : InitializerPhrase where
  assign := phrase.assign.relocate relocation
  literal := phrase.literal.relocate relocation

def DeclarationPhrase.relocate (phrase : DeclarationPhrase) : DeclarationPhrase where
  mutability := phrase.mutability
  keyword := phrase.keyword.relocate relocation
  keyword_kind := phrase.keyword_kind
  name := phrase.name.relocate relocation
  tag := phrase.tag.map (·.relocate relocation)
  initializer := phrase.initializer.map (·.relocate relocation)

def ArgumentPhrase.relocate : ArgumentPhrase → ArgumentPhrase
  | .literal phrase => .literal (phrase.relocate relocation)
  | .identifier name => .identifier (name.relocate relocation)
  | .reference name => .reference (name.relocate relocation)

def StatementPhrase.relocate : StatementPhrase → StatementPhrase
  | .declaration phrase => .declaration (phrase.relocate relocation)
  | .print keyword argument =>
      .print (keyword.relocate relocation) (argument.relocate relocation)

def Item.relocate : Item → Item
  | .semicolon token => .semicolon (token.relocate relocation)
  | .statement phrase => .statement (phrase.relocate relocation)

theorem DeclarationPhrase.tokens_relocate (phrase : DeclarationPhrase) :
    (phrase.relocate relocation).tokens = phrase.tokens.map (·.relocate relocation) := by
  obtain ⟨mutability, keyword, kind, name, tag, initializer⟩ := phrase
  cases tag <;> cases initializer <;> rfl

theorem DeclarationPhrase.declaration_relocate (phrase : DeclarationPhrase) :
    (phrase.relocate relocation).declaration = phrase.declaration.relocate relocation := by
  obtain ⟨mutability, keyword, kind, name, tag, initializer⟩ := phrase
  cases tag <;> cases initializer <;> rfl

theorem ArgumentPhrase.token_relocate (phrase : ArgumentPhrase) :
    (phrase.relocate relocation).token = phrase.token.relocate relocation := by
  cases phrase <;> rfl

theorem ArgumentPhrase.argument_relocate (phrase : ArgumentPhrase) :
    (phrase.relocate relocation).argument = phrase.argument.relocate relocation := by
  cases phrase <;> rfl

theorem StatementPhrase.tokens_relocate (phrase : StatementPhrase) :
    (phrase.relocate relocation).tokens = phrase.tokens.map (·.relocate relocation) := by
  cases phrase with
  | declaration declared => exact declared.tokens_relocate relocation
  | print keyword argument =>
      simp only [relocate, tokens, argument.token_relocate]
      rfl

theorem StatementPhrase.span_relocate (phrase : StatementPhrase) :
    (phrase.relocate relocation).span = phrase.span.relocate relocation := by
  simp only [span, tokens_relocate, List.head_map, List.getLast_map]
  rfl

theorem StatementPhrase.statement_relocate (phrase : StatementPhrase) :
    (phrase.relocate relocation).statement = phrase.statement.relocate relocation := by
  have span := phrase.span_relocate relocation
  cases phrase with
  | declaration declared =>
      simp only [relocate] at span
      simp only [relocate, statement, Statement.relocate, declared.declaration_relocate, span]
  | print keyword argument =>
      simp only [relocate] at span
      simp only [relocate, statement, Statement.relocate, argument.argument_relocate, span]

theorem Derivation.tokens_relocate (derivation : Derivation) :
    Derivation.tokens (derivation.map (·.relocate relocation)) =
      derivation.tokens.map (·.relocate relocation) := by
  induction derivation with
  | nil => rfl
  | cons item rest ih =>
      have first : (item.relocate relocation).tokens =
          item.tokens.map (·.relocate relocation) := by
        cases item with
        | semicolon token => rfl
        | statement phrase => exact phrase.tokens_relocate relocation
      simp only [Derivation.tokens, List.map_cons, List.flatMap_cons, List.map_append] at ih ⊢
      rw [first, ih]

theorem Derivation.program_relocate (derivation : Derivation) :
    Derivation.program (derivation.map (·.relocate relocation)) =
      derivation.program.relocate relocation := by
  induction derivation with
  | nil => rfl
  | cons item rest ih =>
      cases item with
      | semicolon token => exact ih
      | statement phrase =>
          have first := phrase.statement_relocate relocation
          have split :
              Derivation.program ((Item.statement phrase :: rest).map (·.relocate relocation)) =
              (phrase.relocate relocation).statement ::
                Derivation.program (rest.map (·.relocate relocation)) := rfl
          rw [split, first, ih]
          rfl

/-! ## Moving back

What is read off moved tokens can be read off the tokens themselves, for their kinds and
spellings are the same. -/

variable {relocation}

theorem Terminal.exists_of_relocate {kind : TokenKind} {terminal : Terminal kind} {token : Token}
    (moved : token.relocate relocation = terminal.val) :
    ∃ original : Terminal kind, original.val = token ∧ original.relocate relocation = terminal := by
  refine ⟨⟨token, ?_⟩, rfl, Subtype.ext moved⟩
  rw [← terminal.property, ← moved]
  rfl

theorem Denotes.of_relocate {token : Token} {value : Value}
    (denotes : Denotes (token.relocate relocation) value) : Denotes token value := by
  cases denotes with
  | integer kind read => exact .integer kind read
  | float kind read => exact .float kind read
  | string kind => exact .string kind
  | trueWord kind => exact .trueWord kind
  | falseWord kind => exact .falseWord kind

theorem LiteralPhrase.exists_of_relocate {phrase : LiteralPhrase} {token : Token}
    (moved : token.relocate relocation = phrase.token) :
    ∃ original : LiteralPhrase, original.token = token ∧
      original.relocate relocation = phrase := by
  have denotes := phrase.denotes
  rw [← moved] at denotes
  exact ⟨⟨token, phrase.value, denotes.of_relocate⟩, rfl, LiteralPhrase.ext moved rfl⟩

theorem tagTokens_exists_of_relocate {tag : Option (Terminal .typeTag)} {tokens : List Token}
    (moved : tokens.map (·.relocate relocation) = tagTokens tag) :
    ∃ original : Option (Terminal .typeTag), tagTokens original = tokens ∧
      original.map (·.relocate relocation) = tag := by
  cases tag with
  | none =>
      obtain rfl := List.map_eq_nil_iff.mp moved
      exact ⟨none, rfl, rfl⟩
  | some terminal =>
      obtain ⟨token, rfl, first⟩ := List.map_eq_singleton_iff.mp moved
      obtain ⟨original, rfl, rfl⟩ := Terminal.exists_of_relocate first
      exact ⟨some original, rfl, rfl⟩

theorem initializerTokens_exists_of_relocate {initializer : Option InitializerPhrase}
    {tokens : List Token}
    (moved : tokens.map (·.relocate relocation) = initializerTokens initializer) :
    ∃ original : Option InitializerPhrase, initializerTokens original = tokens ∧
      original.map (·.relocate relocation) = initializer := by
  cases initializer with
  | none =>
      obtain rfl := List.map_eq_nil_iff.mp moved
      exact ⟨none, rfl, rfl⟩
  | some phrase =>
      obtain ⟨_, rest, rfl, first, later⟩ := List.map_eq_cons_iff.mp moved
      obtain ⟨_, rfl, second⟩ := List.map_eq_singleton_iff.mp later
      obtain ⟨assign, rfl, sign⟩ := Terminal.exists_of_relocate first
      obtain ⟨literal, rfl, value⟩ := LiteralPhrase.exists_of_relocate second
      exact ⟨some ⟨assign, literal⟩, rfl, congrArg some (InitializerPhrase.ext sign value)⟩

theorem ArgumentPhrase.exists_of_relocate {phrase : ArgumentPhrase} {token : Token}
    (moved : token.relocate relocation = phrase.token) :
    ∃ original : ArgumentPhrase, original.token = token ∧
      original.relocate relocation = phrase := by
  cases phrase with
  | literal phrase =>
      obtain ⟨original, rfl, rfl⟩ := LiteralPhrase.exists_of_relocate moved
      exact ⟨.literal original, rfl, rfl⟩
  | identifier name =>
      obtain ⟨original, rfl, rfl⟩ := Terminal.exists_of_relocate moved
      exact ⟨.identifier original, rfl, rfl⟩
  | reference name =>
      obtain ⟨original, rfl, rfl⟩ := Terminal.exists_of_relocate moved
      exact ⟨.reference original, rfl, rfl⟩

theorem StatementPhrase.exists_of_relocate {phrase : StatementPhrase} {tokens : List Token}
    (moved : tokens.map (·.relocate relocation) = phrase.tokens) :
    ∃ original : StatementPhrase, original.tokens = tokens ∧
      original.relocate relocation = phrase := by
  cases phrase with
  | declaration declared =>
      obtain ⟨mutability, keyword, kind, name, tag, initializer⟩ := declared
      obtain ⟨word, rest, rfl, rfl, moved⟩ := List.map_eq_cons_iff.mp moved
      obtain ⟨_, rest, rfl, second, moved⟩ := List.map_eq_cons_iff.mp moved
      obtain ⟨_, _, rfl, third, fourth⟩ := List.map_eq_append_iff.mp moved
      obtain ⟨name, rfl, rfl⟩ := Terminal.exists_of_relocate second
      obtain ⟨tag, rfl, rfl⟩ := tagTokens_exists_of_relocate third
      obtain ⟨initializer, rfl, rfl⟩ := initializerTokens_exists_of_relocate fourth
      exact ⟨.declaration ⟨mutability, word, kind, name, tag, initializer⟩, rfl, rfl⟩
  | print keyword argument =>
      obtain ⟨_, rest, rfl, first, moved⟩ := List.map_eq_cons_iff.mp moved
      obtain ⟨_, rfl, second⟩ := List.map_eq_singleton_iff.mp moved
      obtain ⟨keyword, rfl, rfl⟩ := Terminal.exists_of_relocate first
      obtain ⟨argument, rfl, rfl⟩ := ArgumentPhrase.exists_of_relocate second
      exact ⟨.print keyword argument, rfl, rfl⟩

theorem Derivation.exists_of_relocate {derivation : Derivation} {tokens : List Token}
    (moved : tokens.map (·.relocate relocation) = derivation.tokens) :
    ∃ original : Derivation, original.tokens = tokens ∧
      original.map (·.relocate relocation) = derivation := by
  induction derivation generalizing tokens with
  | nil =>
      obtain rfl := List.map_eq_nil_iff.mp moved
      exact ⟨[], rfl, rfl⟩
  | cons item rest ih =>
      obtain ⟨_, _, rfl, first, later⟩ := List.map_eq_append_iff.mp moved
      obtain ⟨original, rfl, rfl⟩ := ih later
      cases item with
      | semicolon terminal =>
          obtain ⟨_, rfl, mark⟩ := List.map_eq_singleton_iff.mp first
          obtain ⟨token, rfl, rfl⟩ := Terminal.exists_of_relocate mark
          exact ⟨.semicolon token :: original, rfl, rfl⟩
      | statement phrase =>
          obtain ⟨phrase, rfl, rfl⟩ := StatementPhrase.exists_of_relocate first
          exact ⟨.statement phrase :: original, rfl, rfl⟩

end Grammar

/-- Reading and moving commute. -/
theorem Program.ofTokens_relocate_eq_ok_iff {tokens : List Token} {moved : Program} :
    ofTokens (tokens.map (·.relocate relocation)) = .ok moved ↔
      ∃ program, ofTokens tokens = .ok program ∧ program.relocate relocation = moved := by
  constructor
  · intro read
    obtain ⟨derivation, derives, rfl⟩ := Grammar.derivation_of_readFrom read
    obtain ⟨original, rfl, rfl⟩ := Grammar.Derivation.exists_of_relocate derives.symm
    exact ⟨original.program, Grammar.readFrom_derivation _ original,
      (original.program_relocate relocation).symm⟩
  · rintro ⟨program, read, rfl⟩
    obtain ⟨derivation, rfl, rfl⟩ := Grammar.derivation_of_readFrom read
    rw [← derivation.tokens_relocate, ← derivation.program_relocate]
    exact Grammar.readFrom_derivation _ _

end LineScript
