import LineScript.Proofs.Grammar

/-!
# Reading accepts exactly the grammar

Reading goes through a program from left to right and never back.  Each part of it
reads exactly the phrases of one kind off the front of the tokens: what it reads is a
phrase, and every phrase is read when no declaration could go on behind it.  So
the tokens that are read are those that have a derivation, and the program is
what the derivation denotes.
-/

namespace LineScript.Grammar

open LineScript.Refusal (Place)

/-! ## Literals -/

theorem value_eq_ok_iff {token : Token} {value : Value} :
    token.value = .ok value ↔ Denotes token value := by
  constructor
  · intro read
    unfold Token.value at read
    split at read
    next kind =>
      split at read
      next found => exact Except.ok.inj read ▸ .integer kind found
      · contradiction
    next kind =>
      split at read
      next found => exact Except.ok.inj read ▸ .float kind found
      · contradiction
    next kind => exact Except.ok.inj read ▸ .string kind
    next kind => exact Except.ok.inj read ▸ .trueWord kind
    next kind => exact Except.ok.inj read ▸ .falseWord kind
    · contradiction
  · intro denoted
    cases denoted <;> simp_all [Token.value, stripMarks]

theorem ofToken_eq_ok_iff (place : Place) {token : Token} {literal : Literal} :
    Literal.ofToken place token = .ok literal ↔
      ∃ phrase : LiteralPhrase, phrase.token = token ∧ phrase.literal = literal := by
  constructor
  · intro read
    unfold Literal.ofToken at read
    split at read
    next value valued =>
      exact ⟨⟨token, value, value_eq_ok_iff.mp valued⟩, rfl, Except.ok.inj read⟩
    · contradiction
  · rintro ⟨phrase, rfl, rfl⟩
    have valued := value_eq_ok_iff.mpr phrase.denotes
    simp [Literal.ofToken, valued, LiteralPhrase.literal]

theorem readValue_eq_ok_iff (place : Place) {tokens rest : List Token} {literal : Literal} :
    readValue place tokens = .ok (literal, rest) ↔
      ∃ phrase : LiteralPhrase, tokens = phrase.token :: rest ∧ phrase.literal = literal := by
  constructor
  · intro read
    cases tokens with
    | nil => contradiction
    | cons token more =>
        rw [readValue] at read
        split at read
        next found =>
          obtain ⟨phrase, rfl, rfl⟩ := (ofToken_eq_ok_iff place).mp found
          cases read
          exact ⟨phrase, rfl, rfl⟩
        · contradiction
  · rintro ⟨phrase, rfl, rfl⟩
    have found := (ofToken_eq_ok_iff place).mpr ⟨phrase, rfl, rfl⟩
    rw [readValue, found]

/-! ## Parts of a declaration -/

theorem tokens_of_splitTypeTag {tokens rest : List Token} {tag : Option Token}
    (split : splitTypeTag tokens = (tag, rest)) :
    ∃ phrase : Option (Terminal .typeTag),
      tokens = tagTokens phrase ++ rest ∧ phrase.map (·.val) = tag := by
  cases tokens with
  | nil =>
      cases split
      exact ⟨none, rfl, rfl⟩
  | cons token more =>
      rw [splitTypeTag] at split
      split at split
      next kind =>
        cases split
        exact ⟨some ⟨token, kind⟩, rfl, rfl⟩
      next =>
        cases split
        exact ⟨none, rfl, rfl⟩

theorem splitTypeTag_tagTokens {rest : List Token} (settled : firstKind rest ≠ some .typeTag)
    (phrase : Option (Terminal .typeTag)) :
    splitTypeTag (tagTokens phrase ++ rest) = (phrase.map (·.val), rest) := by
  cases phrase with
  | some tag => simp [tagTokens, splitTypeTag, tag.property]
  | none =>
      cases rest with
      | nil => rfl
      | cons token more => simp_all [tagTokens, splitTypeTag]

theorem tokens_of_splitInitializer {place : Place} {tokens rest : List Token}
    {initializer : Option Literal}
    (split : splitInitializer place tokens = .ok (initializer, rest)) :
    ∃ phrase : Option InitializerPhrase,
      tokens = initializerTokens phrase ++ rest ∧
        phrase.map (·.literal.literal) = initializer := by
  cases tokens with
  | nil =>
      cases split
      exact ⟨none, rfl, rfl⟩
  | cons token more =>
      rw [splitInitializer] at split
      split at split
      next kind =>
        split at split
        next literal behind read =>
          obtain ⟨phrase, rfl, rfl⟩ := (readValue_eq_ok_iff place).mp read
          cases split
          exact ⟨some ⟨⟨token, kind⟩, phrase⟩, rfl, rfl⟩
        · contradiction
      next =>
        cases split
        exact ⟨none, rfl, rfl⟩

theorem splitInitializer_initializerTokens (place : Place) {rest : List Token}
    (settled : firstKind rest ≠ some .assign) (phrase : Option InitializerPhrase) :
    splitInitializer place (initializerTokens phrase ++ rest) =
      .ok (phrase.map (·.literal.literal), rest) := by
  cases phrase with
  | some initializer =>
      have read : readValue place (initializer.literal.token :: rest) =
          .ok (initializer.literal.literal, rest) :=
        (readValue_eq_ok_iff place).mpr ⟨initializer.literal, rfl, rfl⟩
      simp [initializerTokens, InitializerPhrase.tokens, splitInitializer,
        initializer.assign.property, read]
  | none =>
      cases rest with
      | nil => rfl
      | cons token more => simp_all [initializerTokens, splitInitializer]

theorem DeclarationPhrase.statement_eq (phrase : DeclarationPhrase) :
    (StatementPhrase.declaration phrase).statement =
      .declare
        ⟨phrase.mutability, phrase.name.val.lexeme, (phrase.tag.map (·.val)).map (·.inferred),
          phrase.initializer.map (·.literal.literal)⟩
        ⟨phrase.keyword.span.start,
          declarationEnd phrase.name.val (phrase.tag.map (·.val))
            (phrase.initializer.map (·.literal.literal))⟩ := by
  obtain ⟨mutability, keyword, kind, name, tag, initializer⟩ := phrase
  cases initializer <;> cases tag <;> rfl

/-! ## Statements -/

theorem tokens_of_readDeclaration {place : Place} (mutability : Mutability) {keyword : Token}
    {tokens rest : List Token} {statement : Statement}
    (kind : keyword.kind = declaringWord mutability)
    (read : readDeclaration place mutability keyword tokens = .ok (statement, rest)) :
    ∃ phrase : StatementPhrase,
      keyword :: tokens = phrase.tokens ++ rest ∧ phrase.statement = statement := by
  cases tokens with
  | nil => contradiction
  | cons name more =>
      rw [readDeclaration] at read
      split at read
      next named =>
        split at read
        next tag behind tagged =>
          obtain ⟨tag, rfl, rfl⟩ := tokens_of_splitTypeTag tagged
          split at read
          next initializer after initialized =>
            obtain ⟨initializer, rfl, rfl⟩ := tokens_of_splitInitializer initialized
            obtain ⟨rfl, rfl⟩ := Prod.mk.inj (Except.ok.inj read)
            let phrase : DeclarationPhrase :=
              ⟨mutability, keyword, kind, ⟨name, named⟩, tag, initializer⟩
            refine ⟨.declaration phrase, ?_, phrase.statement_eq⟩
            simp [phrase, StatementPhrase.tokens, DeclarationPhrase.tokens]
          · contradiction
      · contradiction

theorem readDeclaration_tokens (place : Place) {rest : List Token} (settled : Settled rest)
    (phrase : DeclarationPhrase) :
    readDeclaration place phrase.mutability phrase.keyword (phrase.tokens.tail ++ rest) =
      .ok ((StatementPhrase.declaration phrase).statement, rest) := by
  have tagged := splitTypeTag_tagTokens
    (firstKind_initializerTokens_append settled phrase.initializer) phrase.tag
  have initialized := splitInitializer_initializerTokens place settled.2 phrase.initializer
  rw [phrase.statement_eq]
  simp only [DeclarationPhrase.tokens, List.tail_cons, List.cons_append, List.append_assoc,
    readDeclaration, phrase.name.property, if_pos, tagged, initialized]

theorem argument_eq_ok_iff (place : Place) {token : Token} {argument : Argument} :
    Argument.ofToken place token = .ok argument ↔
      ∃ phrase : ArgumentPhrase, phrase.token = token ∧ phrase.argument = argument := by
  constructor
  · intro read
    unfold Argument.ofToken at read
    split at read
    · cases found : Literal.ofToken place token with
      | error diagnostic =>
          rw [found] at read
          contradiction
      | ok literal =>
          rw [found] at read
          obtain ⟨phrase, rfl, rfl⟩ := (ofToken_eq_ok_iff place).mp found
          exact ⟨.literal phrase, rfl, Except.ok.inj read⟩
    split at read
    next kind =>
      rcases kind with kind | kind
      · exact ⟨.identifier ⟨token, kind⟩, rfl, Except.ok.inj read⟩
      · exact ⟨.reference ⟨token, kind⟩, rfl, Except.ok.inj read⟩
    · contradiction
  · rintro ⟨phrase, rfl, rfl⟩
    cases phrase with
    | literal phrase =>
        have literal := phrase.denotes.isLiteral
        have found := (ofToken_eq_ok_iff place).mpr ⟨phrase, rfl, rfl⟩
        simp [Argument.ofToken, ArgumentPhrase.token, ArgumentPhrase.argument, literal, found,
          Except.map]
    | identifier name | reference name =>
        simp [Argument.ofToken, ArgumentPhrase.token, ArgumentPhrase.argument, name.property,
          TokenKind.isLiteral]

theorem tokens_of_readPrint {place : Place} {keyword : Token} {tokens rest : List Token}
    {statement : Statement} (kind : keyword.kind = .printWord)
    (read : readPrint place keyword tokens = .ok (statement, rest)) :
    ∃ phrase : StatementPhrase,
      keyword :: tokens = phrase.tokens ++ rest ∧ phrase.statement = statement := by
  cases tokens with
  | nil => contradiction
  | cons token more =>
      rw [readPrint] at read
      split at read
      next argument found =>
        obtain ⟨phrase, rfl, rfl⟩ := (argument_eq_ok_iff place).mp found
        obtain ⟨rfl, rfl⟩ := Prod.mk.inj (Except.ok.inj read)
        exact ⟨.print ⟨keyword, kind⟩ phrase, rfl, rfl⟩
      · contradiction

theorem tokens_of_readStatement {place : Place} {first : Token} {tokens rest : List Token}
    {statement : Statement}
    (read : readStatement place first tokens = .ok (statement, rest)) :
    ∃ phrase : StatementPhrase,
      first :: tokens = phrase.tokens ++ rest ∧ phrase.statement = statement := by
  unfold readStatement at read
  split at read
  next kind => exact tokens_of_readDeclaration .mutable kind read
  next kind => exact tokens_of_readDeclaration .immutable kind read
  next kind => exact tokens_of_readPrint kind read
  · contradiction

theorem readStatement_tokens (place : Place) {rest : List Token} (settled : Settled rest)
    (phrase : StatementPhrase) :
    readStatement place (phrase.tokens.head phrase.tokens_ne_nil) (phrase.tokens.tail ++ rest) =
      .ok (phrase.statement, rest) := by
  cases phrase with
  | declaration declared =>
      have read := readDeclaration_tokens place settled declared
      have kind := declared.keyword_kind
      cases mutability : declared.mutability <;>
        rw [mutability] at read kind <;>
        simpa [readStatement, StatementPhrase.tokens, DeclarationPhrase.tokens, kind,
          declaringWord] using read
  | print keyword argument =>
      have found := (argument_eq_ok_iff place).mpr ⟨argument, rfl, rfl⟩
      simp [readStatement, StatementPhrase.tokens, keyword.property, readPrint, found,
        StatementPhrase.statement, StatementPhrase.span]

/-! ## Programs -/

theorem derivation_of_readFrom {place : Place} {tokens : List Token} {program : Program}
    (read : Program.readFrom place tokens = .ok program) :
    ∃ derivation : Derivation, derivation.tokens = tokens ∧ derivation.program = program := by
  fun_induction Program.readFrom place tokens generalizing program with
  | case1 =>
      cases read
      exact ⟨[], rfl, rfl⟩
  | case2 place first rest kind ih =>
      obtain ⟨derivation, rfl, rfl⟩ := ih read
      exact ⟨.semicolon ⟨first, kind⟩ :: derivation, rfl, rfl⟩
  | case3 => contradiction
  | case4 => contradiction
  | case5 place first rest kind statement behind statementRead later laterRead ih =>
      obtain ⟨derivation, rfl, rfl⟩ := ih laterRead
      obtain ⟨phrase, tokens, rfl⟩ := tokens_of_readStatement statementRead
      refine ⟨.statement phrase :: derivation, ?_, ?_⟩
      · rw [tokens]
        rfl
      · exact Except.ok.inj read

theorem readFrom_of_readStatement {place : Place} {first : Token} {tokens rest : List Token}
    {statement : Statement} (begun : first.kind ≠ .semicolon)
    (read : readStatement place first tokens = .ok (statement, rest)) :
    Program.readFrom place (first :: tokens) =
      (Program.readFrom { place with statement := place.statement + 1 } rest).map
        (statement :: ·) := by
  rw [Program.readFrom, if_neg begun]
  split
  next refused => simp [read] at refused
  next again =>
    obtain ⟨rfl, rfl⟩ := Prod.mk.inj (Except.ok.inj (read.symm.trans again))
    split
    next refused => rw [refused]; rfl
    next later => rw [later]; rfl

theorem StatementPhrase.head_ne_semicolon (phrase : StatementPhrase) :
    (phrase.tokens.head phrase.tokens_ne_nil).kind ≠ .semicolon := by
  have begun := phrase.firstKind_ne_semicolon []
  rw [List.append_nil, firstKind, List.head?_eq_some_head phrase.tokens_ne_nil,
    Option.map_some] at begun
  intro kind
  exact begun (congrArg some kind)

theorem readFrom_derivation (place : Place) (derivation : Derivation) :
    Program.readFrom place derivation.tokens = .ok derivation.program := by
  induction derivation generalizing place with
  | nil => rw [Derivation.tokens, List.flatMap_nil, Program.readFrom]; rfl
  | cons item rest ih =>
      cases item with
      | semicolon token =>
          change Program.readFrom place (token.val :: Derivation.tokens rest) = _
          rw [Program.readFrom, if_pos token.property]
          exact ih place
      | statement phrase =>
          -- Whatever follows, the statement ends where its phrase does.
          change Program.readFrom place (phrase.tokens ++ Derivation.tokens rest) = _
          rw [← List.cons_head_tail phrase.tokens_ne_nil, List.cons_append,
            readFrom_of_readStatement phrase.head_ne_semicolon
              (readStatement_tokens place (Derivation.settled rest) phrase), ih]
          rfl

/-- Tokens are read as a program exactly when they have a derivation, which is then
the only one, and the program is what it denotes. -/
theorem ofTokens_eq_ok_iff_derivation (tokens : List Token) :
    (∀ program, Program.ofTokens tokens = .ok program ↔
      ∃ derivation : Derivation, derivation.tokens = tokens ∧ derivation.program = program) ∧
    { derivation : Derivation | derivation.tokens = tokens }.Subsingleton := by
  constructor
  · intro program
    constructor
    · exact derivation_of_readFrom
    · rintro ⟨derivation, rfl, rfl⟩
      exact readFrom_derivation _ derivation
  · intro first derives second derivesToo
    exact Derivation.tokens_injective (derives.trans derivesToo.symm)

end LineScript.Grammar
