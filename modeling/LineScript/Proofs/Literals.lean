import LineScript.Proofs.Integers
import LineScript.Proofs.Legibility

/-!
# Literals

A piece is taken for a literal by its look alone, and its value is read by rules of their own.
The two agree on every text, also on those that no line is cut into: the value has the type
that the look implies, and the only literals without a value are the integers that sixty-four
bits do not hold.
-/

namespace LineScript

open LineScript.Refusal (Place)

/-! ## Texts that look like numerals denote something -/

theorem exists_denotes_of_numeralKind? {chars : List Char}
    (found : Token.numeralKind? chars = some .number) : ∃ v, DenotesInteger chars v := by
  obtain ⟨unsigned, signed, numeral⟩ := Token.exists_unsigned_of_numeralKind? found
  cases numeral with
  | whole digital =>
      rcases signed with rfl | rfl
      · exact ⟨_, .unsigned digital⟩
      · exact ⟨_, .negative digital⟩

namespace Numeral

/-- A numeral behind its sign, if it has one. -/
def signed (negative : Bool) (unsigned : List Char) : List Char :=
  if negative then '-' :: unsigned else unsigned

theorem length_signed (negative : Bool) (unsigned : List Char) :
    (signed negative unsigned).length = negative.toNat + unsigned.length := by
  cases negative <;> simp [signed, Nat.add_comm]

namespace Decimal

theorem unsigned?_digits (negative : Bool) {digits : List Char} (digital : IsDigits digits) :
    unsigned? negative digits = some ⟨negative, naturalOfDigits digits, 0⟩ := by
  have front : digits.takeWhile Char.isDigit = digits :=
    List.takeWhile_eq_self_iff.mpr digital.2
  have back : digits.dropWhile Char.isDigit = [] := List.dropWhile_eq_nil_iff.mpr digital.2
  have nonempty : digits.isEmpty = false := by simpa using digital.1
  simp [unsigned?, front, back, splitFraction, nonempty, powerMark?]

theorem unsigned?_fraction (negative : Bool) {whole fraction : List Char}
    (digital : IsDigits whole) (behind : ∀ c ∈ fraction, c.isDigit = true) :
    unsigned? negative (whole ++ '.' :: fraction) =
      some ⟨negative, naturalOfDigits (whole ++ fraction), -fraction.length⟩ := by
  have point : '.'.isDigit = false := by decide
  have nonempty : whole.isEmpty = false := by simpa using digital.1
  have front : (whole ++ '.' :: fraction).takeWhile Char.isDigit = whole := by
    rw [List.takeWhile_append_of_pos digital.2, List.takeWhile_cons_of_neg (by simp [point]),
      List.append_nil]
  have back : (whole ++ '.' :: fraction).dropWhile Char.isDigit = '.' :: fraction := by
    rw [List.dropWhile_append_of_pos digital.2, List.dropWhile_cons_of_neg (by simp [point])]
  have behindPoint : fraction.takeWhile Char.isDigit = fraction :=
    List.takeWhile_eq_self_iff.mpr behind
  have rest : fraction.dropWhile Char.isDigit = [] := List.dropWhile_eq_nil_iff.mpr behind
  simp [unsigned?, front, back, splitFraction, behindPoint, rest, nonempty, powerMark?]

theorem read?_signed (negative : Bool) {unsigned : List Char}
    (begins : Piece.beginsWithDigit unsigned = true) :
    read? (signed negative unsigned) = unsigned? negative unsigned := by
  cases negative with
  | false =>
      have sign : signed false unsigned = unsigned := rfl
      rw [read?, sign, splitSign_of_beginsWithDigit begins]
  | true => rfl

end Decimal

/-- What a numeral denotes, and how long it is: its sign, its digits on both sides of the point
and the characters between them. -/
structure Parts (chars : List Char) (kind : TokenKind) (negative : Bool)
    (whole fraction : List Char) : Prop where
  digital : IsDigits whole
  behind : ∀ c ∈ fraction, c.isDigit = true
  read : Decimal.read? chars =
    some ⟨negative, naturalOfDigits (whole ++ fraction), -fraction.length⟩
  length : kind = .float →
    chars.length = negative.toNat + (whole.length + (fraction.length + 1))
  pointless : kind = .number → fraction = []

theorem exists_parts {chars : List Char} {kind : TokenKind}
    (found : Token.numeralKind? chars = some kind) :
    ∃ negative whole fraction, Parts chars kind negative whole fraction := by
  obtain ⟨negative, unsigned, rfl, numeral⟩ :
      ∃ negative unsigned, chars = signed negative unsigned ∧ Token.IsNumeral unsigned kind := by
    obtain ⟨unsigned, rfl | rfl, numeral⟩ := Token.exists_unsigned_of_numeralKind? found
    · exact ⟨false, _, rfl, numeral⟩
    · exact ⟨true, _, rfl, numeral⟩
  cases numeral with
  | whole digital =>
      refine ⟨negative, unsigned, [], digital, by simp, ?_, nofun, fun _ => rfl⟩
      rw [Decimal.read?_signed negative digital.beginsWithDigit,
        Decimal.unsigned?_digits negative digital, List.append_nil]
      rfl
  | @fraction whole fraction digital behind =>
      refine ⟨negative, whole, fraction, digital, behind, ?_, fun _ => ?_, nofun⟩
      · rw [Decimal.read?_signed negative (digital.beginsWithDigit_append _),
          Decimal.unsigned?_fraction negative digital behind]
      · rw [length_signed, List.length_append, List.length_cons]

end Numeral

/-! ## Texts that are literals -/

namespace Token

open LineScript.Piece

/-- A literal text of a kind, the type it implies, and what there is to read in it. -/
inductive IsLiteralText (text : String) : TokenKind → TypeName → Prop
  | trueWord : IsLiteralText text .trueWord .bool
  | falseWord : IsLiteralText text .falseWord .bool
  | number {v : Int} (denotes : DenotesInteger text.toList v) : IsLiteralText text .number .int
  | float {x : Binary64} (read : Binary64.read? text = some x) : IsLiteralText text .float .float
  | string {mark : Char} {middle : List Char} (quote : isQuote mark = true)
      (spelled : text.toList = mark :: (middle ++ [mark])) : IsLiteralText text .string .str

theorem exists_middle_of_isQuoted {chars : List Char} (quoted : isQuoted chars = true) :
    ∃ mark middle, isQuote mark = true ∧ chars = mark :: (middle ++ [mark]) := by
  cases chars with
  | nil => contradiction
  | cons mark rest =>
      rw [isQuoted, Bool.and_eq_true, beq_iff_eq] at quoted
      obtain ⟨middle, rfl⟩ := List.getLast?_eq_some_iff.mp quoted.2
      exact ⟨mark, middle, quoted.1, rfl⟩

theorem isLiteralText_of_numeralKind? {text : String} {kind : TokenKind}
    (found : numeralKind? text.toList = some kind) :
    IsLiteralText text kind (if kind = .float then .float else .int) := by
  rcases numeralKind?_eq_some found with rfl | rfl
  · obtain ⟨v, denotes⟩ := exists_denotes_of_numeralKind? found
    exact .number denotes
  · obtain ⟨_, _, _, parts⟩ := Numeral.exists_parts found
    obtain ⟨x, value⟩ : ∃ x, Binary64.read? text = some x := by
      rw [Binary64.read?, parts.read]
      exact ⟨_, rfl⟩
    exact .float value

/-- A text that is no literal implies no type. -/
theorem isLiteralText_or_void (text : String) :
    IsLiteralText text (kindOfText text).1 (kindOfText text).2 ∨
      (kindOfText text).1.isLiteral = false ∧ (kindOfText text).2 = .void := by
  have words : ∀ row ∈ keywords, row.2 = .trueWord ∨ row.2 = .falseWord ∨
      row.2.isLiteral = false ∧ row.2 ≠ .trueWord ∧ row.2 ≠ .falseWord := by decide
  have signs : ∀ row ∈ operatorKinds ++ symbolKinds, row.2.isLiteral = false := by decide
  unfold kindOfText
  split
  next found =>
    rcases words _ (mem_of_lookup found) with rfl | rfl | ⟨other, notTrue, notFalse⟩
    · exact .inl .trueWord
    · exact .inl .falseWord
    · exact .inr ⟨other, if_neg (by simp [notTrue, notFalse])⟩
  split
  next found => exact .inr ⟨signs _ (mem_of_lookup found), rfl⟩
  split
  next found => exact .inl (isLiteralText_of_numeralKind? found)
  split
  next quoted =>
    obtain ⟨mark, middle, quote, spelled⟩ := exists_middle_of_isQuoted quoted
    exact .inl (.string quote spelled)
  split
  · exact .inr ⟨rfl, rfl⟩
  · exact .inr ⟨rfl, rfl⟩

/-- A token that some piece is given, at whatever position. -/
def IsClassified (token : Token) : Prop := ∃ position piece, classify position piece = token

variable {token : Token}

theorem IsClassified.isLiteralText (classified : token.IsClassified)
    (literal : token.kind.isLiteral = true) :
    IsLiteralText token.lexeme token.kind token.inferred := by
  obtain ⟨position, piece, rfl⟩ := classified
  unfold classify at literal ⊢
  split
  next type content => simp [content, TokenKind.isLiteral] at literal
  next text content =>
    split
    next name found => simp [content, found, TokenKind.isLiteral] at literal
    next none =>
      rcases isLiteralText_or_void text with text | ⟨other, -⟩
      · exact text
      · simp [content, none, other] at literal

theorem IsClassified.inferred_of_identifier (classified : token.IsClassified)
    (named : token.kind = .identifier) : token.inferred = .void := by
  obtain ⟨position, piece, rfl⟩ := classified
  unfold classify at named ⊢
  split
  next type content => simp [content] at named
  next text content =>
    split
    next name found => simp [content, found] at named
    next none =>
      simp only [content, none] at named
      rcases isLiteralText_or_void text with text | ⟨-, void⟩
      · rw [named] at text
        contradiction
      · exact void

/-! ## Values of literal tokens -/

/-- What a token is read as where a value is expected: a literal of the type that the token
shows, or nothing, for it is an integer that sixty-four bits do not hold. -/
inductive Valued (place : Place) (token : Token) : Prop
  | literal {value : Value} (typed : value.type = token.inferred)
      (made : Literal.ofToken place token = .ok ⟨value, token.span⟩)
  | outOfRange {v : Int} (numeral : token.kind = .number)
      (denotes : DenotesInteger token.lexeme.toList v) (beyond : ¬ FitsInt64 v)
      (refused : Literal.ofToken place token =
        .error ((Refusal.integerOutOfRange token.lexeme).atToken place token))

theorem Valued.of_value {place : Place} {value : Value} (given : token.value = .ok value)
    (typed : value.type = token.inferred) : token.Valued place :=
  .literal typed (by rw [Literal.ofToken, given])

theorem IsClassified.valued (classified : token.IsClassified)
    (literal : token.kind.isLiteral = true) (place : Place) : token.Valued place := by
  have text := classified.isLiteralText literal
  obtain ⟨kind, lexeme, position, span, inferred⟩ := token
  cases text with
  | trueWord => exact .literal rfl rfl
  | falseWord => exact .literal rfl rfl
  | @number v denotes =>
      obtain ⟨inside, outside⟩ := value_of_denotes rfl denotes
      by_cases fits : FitsInt64 v
      · exact .of_value (inside fits) rfl
      · exact .outOfRange rfl denotes fits (by rw [Literal.ofToken, outside fits])
  | @float x read =>
      have given : Token.value ⟨.float, lexeme, position, span, .float⟩ = .ok (.float x) := by
        simp only at read
        simp only [value, read]
      exact .of_value given rfl
  | string quote spelled => exact .literal rfl rfl

/-- The value of a quoted text is what stands between its marks. -/
theorem IsClassified.exists_quoted (classified : token.IsClassified)
    (quoted : token.kind = .string) :
    ∃ mark middle, isQuote mark = true ∧ token.lexeme.toList = mark :: (middle ++ [mark]) ∧
      token.value = .ok (.str (String.ofList middle)) := by
  have text := classified.isLiteralText (by rw [quoted]; rfl)
  rw [quoted] at text
  generalize implied : token.inferred = type at text
  cases text with
  | @string mark middle quote spelled =>
      refine ⟨mark, middle, quote, spelled, ?_⟩
      simp [value, quoted, stripMarks, spelled]

/-- No classified token is a fraction that cannot be read. -/
theorem IsClassified.value_ne_invalidFloat (classified : token.IsClassified) (lexeme : String) :
    token.value ≠ .error (.invalidFloat lexeme) := by
  intro refused
  have fraction : token.kind = .float := by
    unfold value at refused
    split at refused
    · split at refused <;> simp at refused
    next kind => exact kind
    all_goals simp at refused
  have text := classified.isLiteralText (by rw [fraction]; rfl)
  rw [fraction] at text
  generalize implied : token.inferred = type at text
  cases text with
  | float read => simp [value, fraction, read] at refused

end Token

/-! ## Programs of classified tokens -/

/-- The message is that of a fraction that cannot be read. -/
def Diagnostic.BlamesFraction (diagnostic : Diagnostic) : Prop :=
  "Invalid float literal".toList <+: diagnostic.message.toList

theorem Refusal.not_prefix_message {refusal : Refusal}
    (other : ∀ lexeme, refusal ≠ .invalidFloat lexeme) (rest : String) :
    ¬ "Invalid float literal".toList <+: (refusal.message ++ rest).toList := by
  -- The third character already tells the messages apart.
  have begins : ∃ text : String, (2 < text.toList.length ∧ text.toList[2]? ≠ some 'v') ∧
      ∃ more, refusal.message = text ++ more := by
    cases refusal with
    | badStart reserved => exact ⟨"Unexpected token", by decide, "", rfl⟩
    | nameExpected keyword =>
        exact ⟨"Expected variable name after '", by decide, _, String.append_assoc⟩
    | unsupportedValue => exact ⟨"Unsupported value type", by decide, "", rfl⟩
    | unsupportedArgument => exact ⟨"print: unsupported argument type", by decide, "", rfl⟩
    | missingArgument => exact ⟨"print: missing argument", by decide, "", rfl⟩
    | integerOutOfRange lexeme => exact ⟨"Integer literal out of range: ", by decide, lexeme, rfl⟩
    | invalidFloat lexeme => exact absurd rfl (other lexeme)
  obtain ⟨text, ⟨long, third⟩, more, same⟩ := begins
  rintro ⟨behind, spelled⟩
  have char : ("Invalid float literal".toList ++ behind)[2]? = text.toList[2]? := by
    rw [spelled, same, String.append_assoc, String.toList_append, List.getElem?_append_left long]
  exact third char.symm

theorem Refusal.not_blamesFraction_atEnd {refusal : Refusal}
    (other : ∀ lexeme, refusal ≠ .invalidFloat lexeme) (place : Place) :
    ¬ (refusal.atEnd place).BlamesFraction := by
  simpa only [Diagnostic.BlamesFraction, atEnd, String.append_assoc] using
    not_prefix_message other _

theorem Refusal.not_blamesFraction_atToken {refusal : Refusal}
    (other : ∀ lexeme, refusal ≠ .invalidFloat lexeme) (place : Place) (token : Token) :
    ¬ (refusal.atToken place token).BlamesFraction := by
  simpa only [Diagnostic.BlamesFraction, atToken, String.append_assoc] using
    not_prefix_message other _

section Refused

variable {place : Place} {token : Token} {tokens : List Token} {diagnostic : Diagnostic}

theorem not_blamesFraction_of_literal (classified : token.IsClassified)
    (refused : Literal.ofToken place token = .error diagnostic) :
    ¬ diagnostic.BlamesFraction := by
  cases valued : token.value with
  | ok value => simp [Literal.ofToken, valued] at refused
  | error refusal =>
      rw [Literal.ofToken, valued] at refused
      obtain rfl := Except.error.inj refused
      refine refusal.not_blamesFraction_atToken ?_ place token
      rintro lexeme rfl
      exact classified.value_ne_invalidFloat lexeme valued

theorem not_blamesFraction_of_initializer (classified : ∀ token ∈ tokens, token.IsClassified)
    (refused : splitInitializer place tokens = .error diagnostic) :
    ¬ diagnostic.BlamesFraction := by
  cases tokens with
  | nil => contradiction
  | cons assign behind =>
      rw [splitInitializer] at refused
      split at refused
      next =>
        cases behind with
        | nil =>
            obtain rfl := Except.error.inj refused
            exact Refusal.not_blamesFraction_atEnd (by simp) place
        | cons token rest =>
            cases found : Literal.ofToken place token with
            | ok literal => simp [readValue, found] at refused
            | error unread =>
                simp only [readValue, found] at refused
                obtain rfl := Except.error.inj refused
                exact not_blamesFraction_of_literal (classified token (by simp)) found
      · contradiction

theorem not_blamesFraction_of_declaration {mutability : Mutability} {keyword : Token}
    (classified : ∀ token ∈ tokens, token.IsClassified)
    (refused : readDeclaration place mutability keyword tokens = .error diagnostic) :
    ¬ diagnostic.BlamesFraction := by
  cases tokens with
  | nil =>
      obtain rfl := Except.error.inj refused
      exact Refusal.not_blamesFraction_atEnd (by simp) place
  | cons name rest =>
      rw [readDeclaration] at refused
      split at refused
      next =>
        split at refused
        next tag behind tagged =>
          split at refused
          · contradiction
          next uninitialized =>
            obtain rfl := Except.error.inj refused
            obtain ⟨phrase, rfl, -⟩ := Grammar.tokens_of_splitTypeTag tagged
            exact not_blamesFraction_of_initializer
              (fun token member => classified token (by simp [member])) uninitialized
      next =>
        obtain rfl := Except.error.inj refused
        exact Refusal.not_blamesFraction_atToken (by simp) place name

theorem not_blamesFraction_of_print {keyword : Token}
    (classified : ∀ token ∈ tokens, token.IsClassified)
    (refused : readPrint place keyword tokens = .error diagnostic) :
    ¬ diagnostic.BlamesFraction := by
  cases tokens with
  | nil =>
      obtain rfl := Except.error.inj refused
      exact Refusal.not_blamesFraction_atEnd (by simp) place
  | cons token rest =>
      rw [readPrint, Argument.ofToken] at refused
      split at refused
      · contradiction
      next unread =>
        obtain rfl := Except.error.inj refused
        split at unread
        next =>
          cases found : Literal.ofToken place token with
          | ok literal => simp [found, Except.map] at unread
          | error diagnostic =>
              rw [found] at unread
              obtain rfl := Except.error.inj unread
              exact not_blamesFraction_of_literal (classified token (by simp)) found
        split at unread
        · contradiction
        · obtain rfl := Except.error.inj unread
          exact Refusal.not_blamesFraction_atToken (by simp) place token

theorem not_blamesFraction_of_statement {first : Token}
    (classified : ∀ token ∈ tokens, token.IsClassified)
    (refused : readStatement place first tokens = .error diagnostic) :
    ¬ diagnostic.BlamesFraction := by
  unfold readStatement at refused
  split at refused
  · exact not_blamesFraction_of_declaration classified refused
  · exact not_blamesFraction_of_declaration classified refused
  · exact not_blamesFraction_of_print classified refused
  · obtain rfl := Except.error.inj refused
    exact Refusal.not_blamesFraction_atToken (by simp) place first

end Refused

/-! ## Declarations without a type tag -/

namespace Grammar

theorem Derivation.tokens_infix_of_mem {derivation : Derivation} {item : Item}
    (member : item ∈ derivation) : item.tokens <:+: derivation.tokens := by
  obtain ⟨front, back, rfl⟩ := List.append_of_mem member
  exact ⟨Derivation.tokens front, Derivation.tokens back, by simp [Derivation.tokens]⟩

/-- The type of a declaration without a type tag is what its last token shows. -/
theorem DeclarationPhrase.exists_last (phrase : DeclarationPhrase)
    (classified : ∀ token ∈ phrase.tokens, token.IsClassified)
    (untagged : phrase.declaration.declaredType = none) :
    ∃ last, phrase.tokens.getLast? = some last ∧ phrase.declaration.type = last.inferred := by
  obtain ⟨mutability, keyword, kind, name, tag, initializer⟩ := phrase
  obtain rfl : tag = none := by simpa [DeclarationPhrase.declaration] using untagged
  cases initializer with
  | none =>
      have named : name.val.IsClassified :=
        classified _ (by simp [DeclarationPhrase.tokens])
      exact ⟨name.val, rfl, (named.inferred_of_identifier name.property).symm⟩
  | some given =>
      refine ⟨given.literal.token, rfl, ?_⟩
      have literal : given.literal.token.IsClassified :=
        classified _ (by simp [DeclarationPhrase.tokens, initializerTokens,
          InitializerPhrase.tokens])
      have read := value_eq_ok_iff.mpr given.literal.denotes
      cases literal.valued given.literal.denotes.isLiteral ⟨1, 0⟩ with
      | literal typed made =>
          rw [Literal.ofToken, read] at made
          obtain rfl := congrArg Literal.value (Except.ok.inj made)
          exact typed
      | outOfRange _ _ _ refused =>
          rw [Literal.ofToken, read] at refused
          contradiction

end Grammar

/-- The entry that an untagged declaration stores has the type that its last token shows. -/
structure StoresShown (tokens : List Token) (declaration : Declaration) (span : Span)
    (phrase : Grammar.DeclarationPhrase) (last : Token) : Prop where
  inside : phrase.tokens <:+: tokens
  denotes : (Grammar.StatementPhrase.declaration phrase).statement = .declare declaration span
  ends : phrase.tokens.getLast? = some last
  stores : ∀ scope : Scope, scope.isLocked declaration.name = false → ∃ next event entry,
    (Statement.declare declaration span).execute scope = .ok (next, event) ∧
      next.get? declaration.name = some entry ∧ entry.type = last.inferred

/-! ## Agreement -/

/-- The look of some tokens and what is read in them agree on literals. -/
structure LiteralsAgree (tokens : List Token) : Prop where
  valued : ∀ token ∈ tokens, token.kind.isLiteral = true → ∀ place, token.Valued place
  quoted : ∀ token ∈ tokens, token.kind = .string → ∀ place,
    ∃ mark middle, Piece.isQuote mark = true ∧ token.lexeme.toList = mark :: (middle ++ [mark]) ∧
      Literal.ofToken place token = .ok ⟨.str (String.ofList middle), token.span⟩
  never_blamesFraction : ∀ diagnostic, Program.ofTokens tokens = .error diagnostic →
    ¬ diagnostic.BlamesFraction
  stored : ∀ program, Program.ofTokens tokens = .ok program → ∀ declaration span,
    .declare declaration span ∈ program → declaration.declaredType = none →
      ∃ phrase last, StoresShown tokens declaration span phrase last

section Agreement

variable {tokens : List Token} (classified : ∀ token ∈ tokens, token.IsClassified)

include classified

theorem not_blamesFraction_of_ofTokens {diagnostic : Diagnostic}
    (refused : Program.ofTokens tokens = .error diagnostic) : ¬ diagnostic.BlamesFraction := by
  obtain ⟨derivation, first, rest, rfl, -, unread, -⟩ := Grammar.readFrom_refused refused
  exact not_blamesFraction_of_statement (fun token member => classified token (by simp [member]))
    unread

theorem exists_storesShown {program : Program} (read : Program.ofTokens tokens = .ok program)
    {declaration : Declaration} {span : Span} (member : .declare declaration span ∈ program)
    (untagged : declaration.declaredType = none) :
    ∃ phrase last, StoresShown tokens declaration span phrase last := by
  obtain ⟨derivation, rfl, rfl⟩ := Grammar.derivation_of_readFrom read
  obtain ⟨phrase, inside, denotes⟩ := Grammar.Derivation.exists_phrase_of_mem member
  obtain ⟨declared, rfl, rfl, rfl⟩ :=
    Grammar.StatementPhrase.eq_declaration_of_statement denotes
  have within := Grammar.Derivation.tokens_infix_of_mem inside
  obtain ⟨last, ends, typed⟩ := declared.exists_last
    (fun token held => classified token (within.subset held)) untagged
  refine ⟨declared, last, within, denotes, ends, fun scope free => ?_⟩
  refine ⟨_, _, declared.declaration.entry, Statement.execute_declare_of_free free _, ?_, typed⟩
  simp [Scope.get?_bind]

/-- What is taken for a literal has a value of the type it shows, unless it is an integer out of
range, whatever the pieces are.  So reading never blames a fraction, an untagged declaration
stores the type that is shown, and a quoted text loses one mark at each end. -/
theorem literalsAgree_of_classified : LiteralsAgree tokens where
  valued token member literal place := (classified token member).valued literal place
  quoted token member kind place := by
    obtain ⟨mark, middle, quote, spelled, given⟩ := (classified token member).exists_quoted kind
    exact ⟨mark, middle, quote, spelled, by rw [Literal.ofToken, given]⟩
  never_blamesFraction _ refused := not_blamesFraction_of_ofTokens classified refused
  stored _ read _ _ member untagged := exists_storesShown classified read member untagged

end Agreement

/-- No line is cut into such a fraction, or into a quoted text that holds its own mark. -/
theorem literalsAgree_trailing_point_and_inner_mark :
    let fraction := Token.classify 1 ⟨.text "5.", ⟨6, 8⟩⟩
    let quoted := Token.classify 3 ⟨.text "'don't'", ⟨15, 22⟩⟩
    fraction.kind = .float ∧ quoted.kind = .string ∧ LiteralsAgree [fraction, quoted] := by
  intro fraction quoted
  have classified : ∀ token ∈ [fraction, quoted], token.IsClassified := by
    intro token member
    rcases List.mem_pair.mp member with rfl | rfl
    · exact ⟨_, _, rfl⟩
    · exact ⟨_, _, rfl⟩
  exact ⟨by decide, by decide, literalsAgree_of_classified classified⟩

end LineScript
