import LineScript.Statement.OfTokens
import Mathlib.Data.Set.Subsingleton

/-!
# The grammar of programs

A program is a sequence of statements and semicolons.  A declaration is a
keyword, a name, an optional type tag and an optional initializer; a print
statement is a keyword and an argument.  The phrases below are the derivation
trees of this grammar.  Each phrase has the tokens it is made of and the part of
a program that it denotes, and no two derivations are made of the same tokens.
-/

namespace LineScript.Grammar

/-! ## Phrases -/

/-- A token of one kind. -/
abbrev Terminal (kind : TokenKind) := { token : Token // token.kind = kind }

/-- The value that a literal token denotes.  A numeral denotes a value only if
its spelling can be read. -/
inductive Denotes (token : Token) : Value → Prop
  | integer {n : Int64} (kind : token.kind = .number)
      (read : Numeral.int64? token.lexeme = some n) : Denotes token (.int n)
  | float {x : Binary64} (kind : token.kind = .float)
      (read : Binary64.read? token.lexeme = some x) : Denotes token (.float x)
  | string (kind : token.kind = .string) :
      Denotes token (.str (String.ofList token.lexeme.toList.tail.dropLast))
  | trueWord (kind : token.kind = .trueWord) : Denotes token (.bool true)
  | falseWord (kind : token.kind = .falseWord) : Denotes token (.bool false)

@[ext] structure LiteralPhrase where
  token : Token
  value : Value
  denotes : Denotes token value

@[ext] structure InitializerPhrase where
  assign : Terminal .assign
  literal : LiteralPhrase

/-- The keyword that binds a name, for good or not. -/
def declaringWord : Mutability → TokenKind
  | .mutable => .letWord
  | .immutable => .setWord

@[ext] structure DeclarationPhrase where
  mutability : Mutability
  keyword : Token
  keyword_kind : keyword.kind = declaringWord mutability
  name : Terminal .identifier
  tag : Option (Terminal .typeTag)
  initializer : Option InitializerPhrase

inductive ArgumentPhrase where
  | literal (phrase : LiteralPhrase)
  | identifier (name : Terminal .identifier)
  | reference (name : Terminal .reference)

inductive StatementPhrase where
  | declaration (phrase : DeclarationPhrase)
  | print (keyword : Terminal .printWord) (argument : ArgumentPhrase)

inductive Item where
  | semicolon (token : Terminal .semicolon)
  | statement (phrase : StatementPhrase)

abbrev Derivation := List Item

/-! ## Tokens of a phrase -/

def InitializerPhrase.tokens (phrase : InitializerPhrase) : List Token :=
  [phrase.assign.val, phrase.literal.token]

def tagTokens : Option (Terminal .typeTag) → List Token
  | none => []
  | some tag => [tag.val]

def initializerTokens : Option InitializerPhrase → List Token
  | none => []
  | some phrase => phrase.tokens

def DeclarationPhrase.tokens (phrase : DeclarationPhrase) : List Token :=
  phrase.keyword :: phrase.name.val :: (tagTokens phrase.tag ++ initializerTokens phrase.initializer)

def ArgumentPhrase.token : ArgumentPhrase → Token
  | .literal phrase => phrase.token
  | .identifier name => name.val
  | .reference name => name.val

def StatementPhrase.tokens : StatementPhrase → List Token
  | .declaration phrase => phrase.tokens
  | .print keyword argument => [keyword.val, argument.token]

def Item.tokens : Item → List Token
  | .semicolon token => [token.val]
  | .statement phrase => phrase.tokens

def Derivation.tokens (derivation : Derivation) : List Token :=
  derivation.flatMap Item.tokens

/-! ## What a phrase denotes -/

def LiteralPhrase.literal (phrase : LiteralPhrase) : Literal :=
  ⟨phrase.value, phrase.token.span⟩

def DeclarationPhrase.declaration (phrase : DeclarationPhrase) : Declaration where
  mutability := phrase.mutability
  name := phrase.name.val.lexeme
  declaredType := phrase.tag.map (·.val.inferred)
  initializer := phrase.initializer.map (·.literal.literal)

def ArgumentPhrase.argument : ArgumentPhrase → Argument
  | .literal phrase => .literal phrase.literal
  | .identifier name => .named name.val.lexeme name.val.span
  | .reference name => .named name.val.lexeme name.val.span

theorem StatementPhrase.tokens_ne_nil (phrase : StatementPhrase) : phrase.tokens ≠ [] := by
  cases phrase <;> simp [StatementPhrase.tokens, DeclarationPhrase.tokens]

/-- From the start of the first token to the end of the last. -/
def StatementPhrase.span (phrase : StatementPhrase) : Span :=
  ⟨(phrase.tokens.head phrase.tokens_ne_nil).span.start,
    (phrase.tokens.getLast phrase.tokens_ne_nil).span.stop⟩

def StatementPhrase.statement (phrase : StatementPhrase) : Statement :=
  match phrase with
  | .declaration declared => .declare declared.declaration phrase.span
  | .print _ argument => .print argument.argument phrase.span

/-- Semicolons denote nothing. -/
def Item.statement? : Item → Option Statement
  | .semicolon _ => none
  | .statement phrase => some phrase.statement

def Derivation.program (derivation : Derivation) : Program :=
  derivation.filterMap Item.statement?

/-! ## Statements of a derivation -/

theorem Derivation.exists_phrase_of_mem {derivation : Derivation} {statement : Statement}
    (member : statement ∈ derivation.program) :
    ∃ phrase : StatementPhrase, .statement phrase ∈ derivation ∧ phrase.statement = statement := by
  obtain ⟨item, there, denoted⟩ := List.mem_filterMap.mp member
  cases item with
  | semicolon token => contradiction
  | statement phrase => exact ⟨phrase, there, Option.some.inj denoted⟩

theorem Derivation.tokens_sublist_of_mem {derivation : Derivation} {item : Item}
    (member : item ∈ derivation) : item.tokens.Sublist derivation.tokens := by
  rw [Derivation.tokens, List.flatMap_def]
  exact List.sublist_flatten_of_mem (List.mem_map_of_mem member)

theorem StatementPhrase.eq_declaration_of_statement {phrase : StatementPhrase}
    {declaration : Declaration} {span : Span} (denotes : phrase.statement = .declare declaration span) :
    ∃ declared : DeclarationPhrase, phrase = .declaration declared ∧
      declaration = declared.declaration ∧ span = phrase.span := by
  cases phrase with
  | declaration declared =>
      obtain ⟨rfl, rfl⟩ := Statement.declare.inj denotes
      exact ⟨declared, rfl, rfl, rfl⟩
  | print keyword argument => contradiction

/-! ## Tokens that a declaration does not take

A declaration may end behind its name, its tag or its initializer.  Where it ends is
settled by the next token alone, for nothing else begins with a tag or an
assignment. -/

def firstKind (tokens : List Token) : Option TokenKind := tokens.head?.map (·.kind)

@[simp] theorem firstKind_nil : firstKind [] = none := rfl

@[simp] theorem firstKind_cons (token : Token) (rest : List Token) :
    firstKind (token :: rest) = some token.kind := rfl

theorem ne_terminal_cons {kind : TokenKind} {tokens : List Token}
    (begun : firstKind tokens ≠ some kind) (terminal : Terminal kind) (rest : List Token) :
    tokens ≠ terminal.val :: rest := by
  rintro rfl
  exact begun (congrArg some terminal.property)

/-- No declaration goes on with these tokens. -/
def Settled (tokens : List Token) : Prop :=
  firstKind tokens ≠ some .typeTag ∧ firstKind tokens ≠ some .assign

theorem StatementPhrase.firstKind_append (phrase : StatementPhrase) (rest : List Token) :
    firstKind (phrase.tokens ++ rest) = some .letWord ∨
      firstKind (phrase.tokens ++ rest) = some .setWord ∨
      firstKind (phrase.tokens ++ rest) = some .printWord := by
  cases phrase with
  | declaration declared =>
      have begun : firstKind (declared.tokens ++ rest) = some (declaringWord declared.mutability) :=
        congrArg some declared.keyword_kind
      cases mutability : declared.mutability with
      | mutable => exact .inl (by rw [mutability] at begun; exact begun)
      | immutable => exact .inr (.inl (by rw [mutability] at begun; exact begun))
  | print keyword argument => exact .inr (.inr (congrArg some keyword.property))

theorem StatementPhrase.firstKind_ne_semicolon (phrase : StatementPhrase) (rest : List Token) :
    firstKind (phrase.tokens ++ rest) ≠ some .semicolon := by
  rcases phrase.firstKind_append rest with begun | begun | begun <;> simp [begun]

theorem Item.settled_append (item : Item) (rest : List Token) : Settled (item.tokens ++ rest) := by
  cases item with
  | semicolon token =>
      simp [Settled, Item.tokens, token.property]
  | statement phrase =>
      rw [Item.tokens, Settled]
      rcases phrase.firstKind_append rest with begun | begun | begun <;> simp [begun]

theorem Derivation.settled (derivation : Derivation) : Settled derivation.tokens := by
  cases derivation with
  | nil => simp [Settled, Derivation.tokens]
  | cons item rest =>
      rw [Derivation.tokens, List.flatMap_cons]
      exact item.settled_append _

theorem firstKind_initializerTokens_append {rest : List Token} (settled : Settled rest)
    (initializer : Option InitializerPhrase) :
    firstKind (initializerTokens initializer ++ rest) ≠ some .typeTag := by
  cases initializer with
  | none => exact settled.1
  | some phrase =>
      simp [initializerTokens, InitializerPhrase.tokens, phrase.assign.property]

/-! ## No two derivations have the same tokens -/

theorem Denotes.unique {token : Token} {first second : Value} (denoted : Denotes token first)
    (again : Denotes token second) : first = second := by
  cases denoted <;> cases again <;> simp_all

theorem Denotes.isLiteral {token : Token} {value : Value} (denoted : Denotes token value) :
    token.kind.isLiteral = true := by
  cases denoted <;> simp_all [TokenKind.isLiteral]

theorem declaringWord_injective : Function.Injective declaringWord := by
  intro first second same
  cases first <;> cases second <;> simp_all [declaringWord]

theorem LiteralPhrase.token_injective : Function.Injective LiteralPhrase.token := by
  intro first second same
  have denoted := second.denotes
  rw [← same] at denoted
  exact LiteralPhrase.ext same (first.denotes.unique denoted)

theorem LiteralPhrase.token_ne {kind : TokenKind} (other : kind.isLiteral = false)
    (phrase : LiteralPhrase) (terminal : Terminal kind) : phrase.token ≠ terminal.val := by
  intro same
  have literal := phrase.denotes.isLiteral
  rw [same, terminal.property, other] at literal
  contradiction

theorem Terminal.val_ne {first second : TokenKind} (different : first ≠ second)
    (terminal : Terminal first) (other : Terminal second) : terminal.val ≠ other.val := by
  intro same
  apply different
  rw [← terminal.property, same, other.property]

theorem ArgumentPhrase.token_injective : Function.Injective ArgumentPhrase.token := by
  intro first second same
  cases first with
  | literal phrase =>
      cases second with
      | literal other => rw [LiteralPhrase.token_injective same]
      | identifier name | reference name => exact absurd same (phrase.token_ne rfl name)
  | identifier name =>
      cases second with
      | literal phrase => exact absurd same.symm (phrase.token_ne rfl name)
      | identifier other => exact congrArg _ (Subtype.ext same)
      | reference other => exact absurd same (Terminal.val_ne (by decide) name other)
  | reference name =>
      cases second with
      | literal phrase => exact absurd same.symm (phrase.token_ne rfl name)
      | identifier other => exact absurd same (Terminal.val_ne (by decide) name other)
      | reference other => exact congrArg _ (Subtype.ext same)

theorem tagTokens_append_inj {first second : Option (Terminal .typeTag)}
    {rest other : List Token} (here : firstKind rest ≠ some .typeTag)
    (there : firstKind other ≠ some .typeTag)
    (same : tagTokens first ++ rest = tagTokens second ++ other) :
    first = second ∧ rest = other := by
  cases first with
  | none =>
      cases second with
      | none => exact ⟨rfl, same⟩
      | some tag => exact absurd same (ne_terminal_cons here tag _)
  | some tag =>
      cases second with
      | none => exact absurd same.symm (ne_terminal_cons there tag _)
      | some again =>
          obtain ⟨tags, rests⟩ := List.cons.inj same
          exact ⟨congrArg some (Subtype.ext tags), rests⟩

theorem initializerTokens_append_inj {first second : Option InitializerPhrase}
    {rest other : List Token} (here : Settled rest) (there : Settled other)
    (same : initializerTokens first ++ rest = initializerTokens second ++ other) :
    first = second ∧ rest = other := by
  cases first with
  | none =>
      cases second with
      | none => exact ⟨rfl, same⟩
      | some phrase => exact absurd same (ne_terminal_cons here.2 phrase.assign _)
  | some phrase =>
      cases second with
      | none => exact absurd same.symm (ne_terminal_cons there.2 phrase.assign _)
      | some again =>
          obtain ⟨assigns, behind⟩ := List.cons.inj same
          obtain ⟨literals, rests⟩ := List.cons.inj behind
          have phrases : phrase = again := InitializerPhrase.ext (Subtype.ext assigns)
            (LiteralPhrase.token_injective literals)
          exact ⟨congrArg some phrases, rests⟩

theorem DeclarationPhrase.tokens_append_inj {first second : DeclarationPhrase}
    {rest other : List Token} (here : Settled rest) (there : Settled other)
    (same : first.tokens ++ rest = second.tokens ++ other) :
    first = second ∧ rest = other := by
  simp only [DeclarationPhrase.tokens, List.cons_append, List.cons.injEq,
    List.append_assoc] at same
  obtain ⟨keywords, names, behind⟩ := same
  have mutabilities : first.mutability = second.mutability := by
    apply declaringWord_injective
    rw [← first.keyword_kind, ← second.keyword_kind, keywords]
  -- No initializer begins with a tag, so both declarations have one or neither has.
  obtain ⟨tags, behind⟩ := tagTokens_append_inj
    (firstKind_initializerTokens_append here _) (firstKind_initializerTokens_append there _) behind
  obtain ⟨initializers, rests⟩ := initializerTokens_append_inj here there behind
  exact ⟨DeclarationPhrase.ext mutabilities keywords (Subtype.ext names) tags initializers, rests⟩

theorem DeclarationPhrase.keyword_ne (phrase : DeclarationPhrase) (word : Terminal .printWord) :
    phrase.keyword ≠ word.val := by
  intro same
  have kind := phrase.keyword_kind
  rw [same, word.property] at kind
  cases mutability : phrase.mutability <;> simp [mutability, declaringWord] at kind

theorem StatementPhrase.tokens_append_inj {first second : StatementPhrase}
    {rest other : List Token} (here : Settled rest) (there : Settled other)
    (same : first.tokens ++ rest = second.tokens ++ other) :
    first = second ∧ rest = other := by
  cases first with
  | declaration declared =>
      cases second with
      | declaration again =>
          obtain ⟨phrases, rests⟩ := DeclarationPhrase.tokens_append_inj here there same
          exact ⟨congrArg _ phrases, rests⟩
      | print keyword argument =>
          exact absurd (List.cons.inj same).1 (declared.keyword_ne keyword)
  | print keyword argument =>
      cases second with
      | declaration declared =>
          exact absurd (List.cons.inj same).1.symm (declared.keyword_ne keyword)
      | print other argument' =>
          obtain ⟨keywords, behind⟩ := List.cons.inj same
          obtain ⟨arguments, rests⟩ := List.cons.inj behind
          rw [Subtype.ext keywords, ArgumentPhrase.token_injective arguments]
          exact ⟨rfl, rests⟩

theorem Item.tokens_append_inj {first second : Item} {rest other : List Token}
    (here : Settled rest) (there : Settled other)
    (same : first.tokens ++ rest = second.tokens ++ other) :
    first = second ∧ rest = other := by
  cases first with
  | semicolon token =>
      cases second with
      | semicolon again =>
          obtain ⟨tokens, rests⟩ := List.cons.inj same
          exact ⟨congrArg _ (Subtype.ext tokens), rests⟩
      | statement phrase =>
          exact absurd same.symm (ne_terminal_cons (phrase.firstKind_ne_semicolon other) token _)
  | statement phrase =>
      cases second with
      | semicolon token =>
          exact absurd same (ne_terminal_cons (phrase.firstKind_ne_semicolon rest) token _)
      | statement again =>
          obtain ⟨phrases, rests⟩ := StatementPhrase.tokens_append_inj here there same
          exact ⟨congrArg _ phrases, rests⟩

theorem Item.tokens_ne_nil (item : Item) : item.tokens ≠ [] := by
  cases item with
  | semicolon token => exact List.cons_ne_nil _ _
  | statement phrase => exact phrase.tokens_ne_nil

/-- The grammar is unambiguous. -/
theorem Derivation.tokens_injective : Function.Injective Derivation.tokens := by
  intro first
  induction first with
  | nil =>
      intro second same
      cases second with
      | nil => rfl
      | cons item rest =>
          have empty := List.append_eq_nil_iff.mp same.symm
          exact absurd empty.1 item.tokens_ne_nil
  | cons item rest ih =>
      intro second same
      cases second with
      | nil =>
          have empty := List.append_eq_nil_iff.mp same
          exact absurd empty.1 item.tokens_ne_nil
      | cons again other =>
          obtain ⟨items, rests⟩ := Item.tokens_append_inj (Derivation.settled rest)
            (Derivation.settled other) same
          rw [items, ih rests]

end LineScript.Grammar
