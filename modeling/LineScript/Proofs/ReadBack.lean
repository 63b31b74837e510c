import LineScript.Proofs.Spelling
import Mathlib.Data.List.Forall2

/-!
# Programs that are written read back

A program is written word by word, with single spaces between the words.  Each word gives
its tokens whatever stands around it, the tokens of a statement form its phrase, and so the
line is read as the program it was written from.
-/

namespace LineScript

open LineScript.Grammar LineScript.Piece LineScript.Text

/-! ## Writing programs -/

def Mutability.keyword : Mutability → String
  | .mutable => "let"
  | .immutable => "set"

def tagText : Option TypeName → String
  | none => ""
  | some type => ";" ++ type.name

inductive InitializerWords : Option Literal → List String → Prop
  | absent : InitializerWords none []
  | given {literal : Literal} {text : String} (spelled : literal.value.Spelled text) :
      InitializerWords (some literal) ["=", text]

inductive Statement.Words : Statement → List String → Prop
  | declare {declaration : Declaration} {span : Span} {words : List String}
      (initializer : InitializerWords declaration.initializer words) :
      Words (.declare declaration span)
        (declaration.mutability.keyword ::
          (declaration.name ++ tagText declaration.declaredType) :: words)
  | printLiteral {given : Literal} {span : Span} {text : String}
      (spelled : given.value.Spelled text) :
      Words (.print (.literal given) span) ["print", text]
  | printNamed {name : String} {place span : Span} :
      Words (.print (.named name place) span) ["print", "?" ++ name]

/-- The line holds the words of the statements in order, with single spaces between them. -/
def Program.Written (program : Program) (line : String) : Prop :=
  ∃ words, List.Forall₂ Statement.Words program words ∧
    line = String.intercalate " " words.flatten

/-! ## What can be written -/

def Value.Writable : Value → Prop
  | .int _ | .bool _ => True
  | .float x => ∃ text : String, IsFraction text.toList ∧ Binary64.read? text = some x
  | .str text => ¬ ('"' ∈ text.toList ∧ '\'' ∈ text.toList)
  | .void => False

def Statement.Writable : Statement → Prop
  | .declare declaration _ =>
      isIdentifier declaration.name.toList = true ∧
        declaration.name ∉ Token.keywords.map (·.1) ∧ declaration.declaredType ≠ some .any ∧
        ∀ literal ∈ declaration.initializer, literal.value.Writable
  | .print (.literal given) _ => given.value.Writable
  | .print (.named name _) _ => isIdentifier name.toList = true

theorem Value.Writable.spelled {value : Value} (writable : value.Writable) :
    ∃ text, value.Spelled text := by
  cases value with
  | int n => exact ⟨_, .int n⟩
  | bool b => exact ⟨_, .bool b⟩
  | float x =>
      obtain ⟨text, form, read⟩ := writable
      exact ⟨text, .float form read⟩
  | str text =>
      rcases not_and_or.mp writable with free | free
      · exact ⟨_, .str (by decide) free⟩
      · exact ⟨_, .str (by decide) free⟩
  | void => exact writable.elim

theorem Statement.Writable.words {statement : Statement} (writable : statement.Writable) :
    ∃ words, statement.Words words := by
  cases statement with
  | declare declaration span =>
      obtain ⟨-, -, -, values⟩ := writable
      have initializer : ∃ words, InitializerWords declaration.initializer words := by
        cases given : declaration.initializer with
        | none => exact ⟨_, .absent⟩
        | some literal =>
            obtain ⟨text, spelled⟩ := (values literal given).spelled
            exact ⟨_, .given spelled⟩
      obtain ⟨words, initializer⟩ := initializer
      exact ⟨_, .declare initializer⟩
  | print argument span =>
      cases argument with
      | literal given =>
          obtain ⟨text, spelled⟩ := Value.Writable.spelled writable
          exact ⟨_, .printLiteral spelled⟩
      | named name place => exact ⟨_, .printNamed⟩

theorem Program.exists_written {program : Program}
    (writable : ∀ statement ∈ program, statement.Writable) : ∃ line, program.Written line := by
  have words : ∃ words, List.Forall₂ Statement.Words program words := by
    induction program with
    | nil => exact ⟨[], .nil⟩
    | cons statement rest ih =>
        obtain ⟨first, others⟩ := List.forall_mem_cons.mp writable
        obtain ⟨word, written⟩ := first.words
        obtain ⟨words, later⟩ := ih others
        exact ⟨_, .cons written later⟩
  obtain ⟨words, written⟩ := words
  exact ⟨_, words, written, rfl⟩

/-! ## Tokens of words with spaces between them -/

theorem Lexes.append {first second : String} {tokens more : List Token} (lexes : Lexes first tokens)
    (known : ∀ token ∈ tokens, token.kind ≠ .unknown) (next : Lexes second more) :
    Lexes (first ++ " " ++ second) (tokens ++ more) := by
  have still : ∀ token ∈ Token.ofLine .annotating first, token.kind ≠ .unknown := by
    intro token member
    apply known (token.relocate .erase)
    rw [← lexes]
    exact List.mem_map_of_mem member
  have space : isBlank ' ' = true := by decide
  have joined := Token.ofLine_append_blank space .annotating first second still
  have spelled : String.singleton ' ' = " " := rfl
  rw [spelled] at joined
  rw [Lexes, joined, List.map_append, List.map_map, lexes]
  exact congrArg _ next

theorem lexes_intercalate {words : List String} {tokens : List (List Token)}
    (each : List.Forall₂ Lexes words tokens)
    (known : ∀ token ∈ tokens.flatten, token.kind ≠ .unknown) :
    Lexes (String.intercalate " " words) tokens.flatten := by
  induction each with
  | nil => decide +kernel
  | @cons word first words rest lexes others ih =>
      rw [List.flatten_cons] at known ⊢
      obtain ⟨knownFirst, knownRest⟩ := List.forall_mem_append.mp known
      cases others with
      | nil => simpa using lexes
      | cons next later =>
          rw [String.intercalate_cons_cons]
          exact lexes.append knownFirst (ih knownRest)

/-! ## Phrases of statements -/

theorem Literal.phrase_of_spelled {literal : Literal} {text : String}
    (spelled : literal.value.Spelled text) :
    ∃ phrase : LiteralPhrase, Lexes text [phrase.token] ∧
      phrase.literal.relocate .erase = literal.relocate .erase := by
  obtain ⟨token, lexes, denotes⟩ := spelled.lexes
  exact ⟨⟨token, literal.value, denotes⟩, lexes, rfl⟩

theorem InitializerWords.phrase {initializer : Option Literal} {words : List String}
    (written : InitializerWords initializer words) :
    ∃ (tokens : List (List Token)) (phrase : Option InitializerPhrase),
      List.Forall₂ Lexes words tokens ∧ initializerTokens phrase = tokens.flatten ∧
        (phrase.map (·.literal.literal)).map (·.relocate .erase) =
          initializer.map (·.relocate .erase) := by
  cases written with
  | absent => exact ⟨[], none, .nil, rfl, rfl⟩
  | given spelled =>
      obtain ⟨phrase, lexes, denoted⟩ := Literal.phrase_of_spelled spelled
      have sign : Lexes "=" [.bare .assign "=" .void] := by decide +kernel
      exact ⟨_, some ⟨⟨_, rfl⟩, phrase⟩, .cons sign (.cons lexes .nil), rfl, congrArg some denoted⟩

def writtenTag (declared : Option TypeName) : Option (Terminal .typeTag) :=
  declared.map fun type => ⟨.bare .typeTag type.name type, rfl⟩

theorem lexes_declared {name : String} (named : isIdentifier name.toList = true)
    (free : Token.keywords.lookup name = none) {declared : Option TypeName}
    (taggable : declared ≠ some .any) :
    Lexes (name ++ tagText declared)
      (.bare .identifier name .void :: tagTokens (writtenTag declared)) := by
  cases declared with
  | none => simpa [tagText, writtenTag, tagTokens] using lexes_name named free
  | some type =>
      have other : type ≠ .any := by simpa using taggable
      simpa [tagText, writtenTag, tagTokens, String.append_assoc] using
        lexes_tagged named free other

theorem lexes_keyword (mutability : Mutability) :
    Lexes mutability.keyword [.bare (declaringWord mutability) mutability.keyword .void] := by
  cases mutability <;> decide +kernel

/-- The words of a statement give the tokens of a phrase that denotes it. -/
theorem Statement.Words.phrase {statement : Statement} {words : List String}
    (written : statement.Words words) (writable : statement.Writable) :
    ∃ (tokens : List (List Token)) (phrase : StatementPhrase),
      List.Forall₂ Lexes words tokens ∧ phrase.tokens = tokens.flatten ∧
        phrase.statement.relocate .erase = statement.relocate .erase := by
  have printing : Lexes "print" [.bare .printWord "print" .void] := by decide +kernel
  cases written with
  | @declare declaration span words initializer =>
      obtain ⟨mutability, name, declared, literal⟩ := declaration
      obtain ⟨named, unreserved, taggable, -⟩ := writable
      have free : Token.keywords.lookup name = none := by
        rw [List.lookup_eq_none_iff]
        intro keyword member
        have other : name ≠ keyword.1 := fun same => unreserved (same ▸ List.mem_map_of_mem member)
        simpa using other
      obtain ⟨tokens, phrase, lexes, made, denoted⟩ := initializer.phrase
      let declaring : DeclarationPhrase :=
        ⟨mutability, .bare (declaringWord mutability) mutability.keyword .void, rfl,
          ⟨.bare .identifier name .void, rfl⟩, writtenTag declared, phrase⟩
      have tagged : (writtenTag declared).map (·.val.inferred) = declared := by
        cases declared <;> rfl
      refine ⟨_, .declaration declaring, .cons (lexes_keyword mutability)
        (.cons (lexes_declared named free taggable) lexes), ?_, ?_⟩
      · simp [declaring, StatementPhrase.tokens, DeclarationPhrase.tokens, made]
      · simp only [declaring, StatementPhrase.statement, DeclarationPhrase.declaration,
          Statement.relocate, Declaration.relocate, tagged, denoted]
        rfl
  | printLiteral spelled =>
      obtain ⟨phrase, lexes, denoted⟩ := Literal.phrase_of_spelled spelled
      refine ⟨_, .print ⟨_, rfl⟩ (.literal phrase), .cons printing (.cons lexes .nil), rfl, ?_⟩
      simp only [StatementPhrase.statement, ArgumentPhrase.argument, Statement.relocate,
        Argument.relocate, denoted]
      rfl
  | @printNamed name place span =>
      exact ⟨_, .print ⟨_, rfl⟩ (.reference ⟨.bare .reference name .any, rfl⟩),
        .cons printing (.cons (lexes_reference writable) .nil), rfl, rfl⟩

theorem Program.exists_derivation_of_words {program : Program} {words : List (List String)}
    (written : List.Forall₂ Statement.Words program words)
    (writable : ∀ statement ∈ program, statement.Writable) :
    ∃ (tokens : List (List Token)) (derivation : Derivation),
      List.Forall₂ Lexes words.flatten tokens ∧ derivation.tokens = tokens.flatten ∧
        derivation.program.relocate .erase = program.relocate .erase := by
  induction written with
  | nil => exact ⟨[], [], .nil, rfl, rfl⟩
  | @cons statement first program words written others ih =>
      obtain ⟨writableFirst, writableRest⟩ := List.forall_mem_cons.mp writable
      obtain ⟨tokens, phrase, lexes, made, denoted⟩ := written.phrase writableFirst
      obtain ⟨more, derivation, lexesRest, madeRest, denotedRest⟩ := ih writableRest
      refine ⟨tokens ++ more, .statement phrase :: derivation,
        List.rel_append lexes lexesRest, ?_, ?_⟩
      · rw [List.flatten_append, ← made, ← madeRest]
        rfl
      · exact congrArg₂ List.cons denoted denotedRest

/-! ## Reading what is written -/

theorem Program.relocate_erase_erase (program : Program) :
    (program.relocate .erase).relocate .erase = program.relocate .erase := by
  have twice : ∀ statement : Statement,
      (statement.relocate .erase).relocate .erase = statement.relocate .erase := by
    intro statement
    cases statement with
    | declare declaration span =>
        obtain ⟨mutability, name, declared, initializer⟩ := declaration
        cases initializer <;> rfl
    | print argument span => cases argument <;> rfl
  simp [relocate, twice]

theorem Program.ofTokens_of_written {program : Program} {line : String}
    (writable : ∀ statement ∈ program, statement.Writable) (written : program.Written line) :
    ∃ read, ofTokens (Token.ofLine .annotating line) = .ok read ∧
      read.relocate .erase = program.relocate .erase := by
  obtain ⟨words, written, spelled⟩ := written
  obtain ⟨tokens, derivation, each, made, denoted⟩ := exists_derivation_of_words written writable
  have lexes : Lexes line derivation.tokens := by
    rw [spelled, made]
    apply lexes_intercalate each
    intro token member
    rw [← made] at member
    exact derivation.kind_ne_unknown member
  -- Reading does not depend on where the tokens stand, so it is settled by the bare ones.
  have readBare : ofTokens ((Token.ofLine .annotating line).map (·.relocate .erase)) =
      .ok derivation.program := by
    rw [lexes]
    exact readFrom_derivation _ derivation
  obtain ⟨read, readLine, moved⟩ := (ofTokens_relocate_eq_ok_iff .erase).mp readBare
  refine ⟨read, readLine, ?_⟩
  rw [← denoted, ← moved, relocate_erase_erase]

/-- A program that can be written has lines, and is read off each of them. -/
theorem written_program_reads_back (program : Program)
    (writable : ∀ statement ∈ program, statement.Writable) :
    (∃ line, program.Written line) ∧
    ∀ line, program.Written line →
      ∃ read, Program.ofTokens (Token.ofLine .annotating line) = .ok read ∧
        read.relocate .erase = program.relocate .erase :=
  ⟨Program.exists_written writable, fun _ => Program.ofTokens_of_written writable⟩

theorem written_program_reads_back_near_keywords :
    let program : Program :=
      [.declare ⟨.mutable, "lets", some .int, some ⟨.int Int64.minValue, ⟨0, 0⟩⟩⟩ ⟨0, 0⟩,
        .print (.literal ⟨.str "it's ;int = 1", ⟨0, 0⟩⟩) ⟨0, 0⟩,
        .declare ⟨.immutable, "half", none, some ⟨.float ⟨0xBFE0000000000000⟩, ⟨0, 0⟩⟩⟩ ⟨0, 0⟩,
        .print (.named "let" ⟨0, 0⟩) ⟨0, 0⟩]
    let line :=
      "let lets;int = -9223372036854775808 print \"it's ;int = 1\" set half = -0.5 print ?let"
    (∀ statement ∈ program, statement.Writable) ∧
    ∃ read, Program.ofTokens (Token.ofLine .annotating line) = .ok read ∧
      read.relocate .erase = program := by
  intro program line
  have digital : IsDigits ['0'] ∧ IsDigits ['5'] := by simp [IsDigits]
  have form : IsFraction "-0.5".toList := .negative digital.1 digital.2
  have half : Binary64.read? "-0.5" = some ⟨0xBFE0000000000000⟩ := by decide +kernel
  have least : Value.Spelled (.int Int64.minValue) "-9223372036854775808" := .int Int64.minValue
  have quoted : Value.Spelled (.str "it's ;int = 1") "\"it's ;int = 1\"" :=
    @Value.Spelled.str "it's ;int = 1" '"' rfl (by decide)
  have writable : ∀ statement ∈ program, statement.Writable := by
    simp only [program, List.forall_mem_cons, List.not_mem_nil, false_imp_iff, implies_true,
      and_true, Statement.Writable, Option.mem_some_iff, forall_eq', Value.Writable]
    exact ⟨by decide, by decide, ⟨by decide, by decide, by decide, _, form, half⟩, by decide⟩
  have written : program.Written line :=
    ⟨_, .cons (.declare (.given least)) (.cons (.printLiteral quoted)
      (.cons (.declare (.given (.float form half))) (.cons .printNamed .nil))), by decide +kernel⟩
  exact ⟨writable, (written_program_reads_back program writable).2 _ written⟩

end LineScript
