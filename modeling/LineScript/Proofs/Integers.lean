import LineScript.Proofs.Grammar.Viability
import LineScript.Proofs.Joining
import LineScript.Proofs.Spelling
import Mathlib.Algebra.Ring.Int.Defs

/-!
# Integer numerals

A text of digits, signed or not, denotes an integer of any size.  It is one token in either
mode.  A line that gives or prints it means that integer when sixty-four bits hold it, and is
rejected at the numeral when they do not; nothing is wrapped around or cut off.
-/

namespace LineScript

open LineScript.Text

/-! ## What a numeral denotes -/

/-- The integers of sixty-four bits. -/
def FitsInt64 (v : Int) : Prop := -2 ^ 63 ≤ v ∧ v ≤ 2 ^ 63 - 1

instance (v : Int) : Decidable (FitsInt64 v) := inferInstanceAs (Decidable (_ ∧ _))

theorem fitsInt64_iff {v : Int} :
    FitsInt64 v ↔ Int64.minValue.toInt ≤ v ∧ v ≤ Int64.maxValue.toInt := Iff.rfl

theorem FitsInt64.toInt_ofInt {v : Int} (fits : FitsInt64 v) : (Int64.ofInt v).toInt = v := by
  obtain ⟨low, high⟩ := fits
  exact Int64.toInt_ofInt_of_le low (by omega)

namespace Numeral

theorem natural?_digits {digits : List Char} (digital : IsDigits digits) :
    natural? digits = some (naturalOfDigits digits) := by
  have nonempty : digits.isEmpty = false := by simpa using digital.1
  have every : digits.all Char.isDigit = true := List.all_eq_true.mpr digital.2
  simp [natural?, nonempty, every]

theorem integer?_of_denotes {chars : List Char} {v : Int} (denotes : DenotesInteger chars v) :
    integer? chars = some v := by
  cases denotes with
  | unsigned digital =>
      simp only [integer?, splitSign_of_beginsWithDigit digital.beginsWithDigit,
        natural?_digits digital]
      rfl
  | @negative digits digital =>
      have sign : splitSign ('-' :: digits) = (true, digits) := rfl
      simp only [integer?, sign, natural?_digits digital]
      rfl

theorem int64?_of_denotes {text : String} {v : Int} (denotes : DenotesInteger text.toList v) :
    (FitsInt64 v → int64? text = some (Int64.ofInt v)) ∧ (¬ FitsInt64 v → int64? text = none) := by
  have read := integer?_of_denotes denotes
  constructor
  · intro fits
    simp only [int64?, read, fitsInt64_iff.mp fits, and_self, if_true]
  · intro outside
    simp only [int64?, read, if_neg (mt fitsInt64_iff.mpr outside)]

/-- The text that is written for an integer denotes it. -/
theorem denotes_integerText (v : Int) : DenotesInteger (integerText v).toList v := by
  have digital := isDigits_naturalDigits v.natAbs
  have value : Nat.ofDigitChars 10 (naturalDigits v.natAbs) 0 = v.natAbs :=
    Nat.ofDigitChars_ten_toDigits
  rw [integerText]
  split
  next below =>
    have denotes := DenotesInteger.negative digital
    rw [value] at denotes
    rw [String.toList_ofList]
    convert denotes
    omega
  next above =>
    have denotes := DenotesInteger.unsigned digital
    rw [value] at denotes
    rw [String.toList_ofList]
    convert denotes
    omega

end Numeral

/-! ## Tokens of a line with one literal -/

namespace Token

theorem ofLine_integer (mode : Mode) {text : String} {v : Int}
    (denotes : DenotesInteger text.toList v) :
    ofLine mode text = [⟨.number, text, 0, ⟨0, text.length⟩, .int⟩] := by
  have form : IsUnsigned text.toList ∨ ∃ chars, text.toList = '-' :: chars ∧ IsUnsigned chars := by
    generalize text.toList = chars at denotes
    cases denotes with
    | unsigned digital => exact .inl (.whole digital)
    | negative digital => exact .inr ⟨_, rfl, .whole digital⟩
  have kind : numeralKind? text.toList = some .number := by
    generalize text.toList = chars at denotes
    cases denotes with
    | unsigned digital => exact numeralKind?_digits digital
    | negative digital =>
        rw [numeralKind?_negative digital.beginsWithDigit, numeralKind?_digits digital]
  exact ofLine_numeral mode form kind

/-- A word that is one token, with a space behind it, moves the tokens of the rest. -/
theorem ofLine_word_append {mode : Mode} {word : String} {token : Token}
    (single : ofLine mode word = [token]) (known : token.kind ≠ .unknown) (rest : String) :
    ofLine mode (word ++ " " ++ rest) =
      token :: (ofLine mode rest).map (·.relocate (.shift 1 (word.length + 1))) := by
  have space : isBlank ' ' = true := by decide
  have joined := ofLine_append_blank space mode word rest (by simpa [single] using known)
  rw [single] at joined
  exact joined

variable {mode : Mode} {text : String} {kind : TokenKind} {type : TypeName}

theorem ofLine_print (single : ofLine mode text = [⟨kind, text, 0, ⟨0, text.length⟩, type⟩]) :
    ofLine mode ("print " ++ text) =
      [⟨.printWord, "print", 0, ⟨0, 5⟩, .void⟩, ⟨kind, text, 1, ⟨6, 6 + text.length⟩, type⟩] := by
  have word : ofLine mode "print" = [⟨.printWord, "print", 0, ⟨0, 5⟩, .void⟩] := by
    cases mode <;> decide +kernel
  have length : "print".length = 5 := rfl
  have joined := ofLine_word_append word (by decide) text
  rw [single] at joined
  simpa [relocate, Relocation.shift, Span.relocate, length, Nat.add_comm] using joined

theorem ofLine_let {name : String} (named : isIdentifier name.toList = true)
    (unreserved : keywords.lookup name = none)
    (single : ofLine mode text = [⟨kind, text, 0, ⟨0, text.length⟩, type⟩]) :
    let start := name.length + 7
    ofLine mode ("let " ++ name ++ " = " ++ text) =
      [⟨.letWord, "let", 0, ⟨0, 3⟩, .void⟩,
        ⟨.identifier, name, 1, ⟨4, 4 + name.length⟩, .void⟩,
        ⟨.assign, "=", 2, ⟨name.length + 5, name.length + 6⟩, .void⟩,
        ⟨kind, text, 3, ⟨start, start + text.length⟩, type⟩] := by
  intro start
  have keyword : ofLine mode "let" = [⟨.letWord, "let", 0, ⟨0, 3⟩, .void⟩] := by
    cases mode <;> decide +kernel
  have sign : ofLine mode "=" = [⟨.assign, "=", 0, ⟨0, 1⟩, .void⟩] := by
    cases mode <;> decide +kernel
  have split : "let " ++ name ++ " = " ++ text =
      "let" ++ " " ++ (name ++ " " ++ ("=" ++ " " ++ text)) := by
    rw [← String.toList_inj]
    simp
  have lengths : "let".length = 3 ∧ "=".length = 1 := ⟨rfl, rfl⟩
  rw [split, ofLine_word_append keyword (by decide),
    ofLine_word_append (ofLine_name mode named unreserved) (by simp),
    ofLine_word_append sign (by decide), single]
  simp [relocate, Relocation.shift, Span.relocate, lengths, start]
  omega

end Token

/-! ## Lines with one literal -/

/-- What a line does that ends in the token of a literal: it does something with the value of
the token, or is rejected at the token. -/
structure TurnsOn (token : Token) (interpretation : Interpretation) (scope : Scope)
    (done : Value → List Event × Scope) : Prop where
  valued : ∀ value, token.value = .ok value →
    interpretation.outcome = .completed (done value).1 ∧ interpretation.scope = (done value).2
  refused : ∀ refusal, token.value = .error refusal →
    interpretation.outcome = .rejected (refusal.atToken ⟨1, token.span.stop⟩ token) ∧
      interpretation.scope = scope

section OneLiteral

variable {mode : Mode} {line : String} {token : Token} {scope : Scope}

theorem turnsOn_of_read (token : Token) {first : Token} {tokens : List Token}
    {done : Value → List Event × Scope} (cut : Token.ofLine mode line = first :: tokens)
    (last : (first :: tokens).getLast? = some token)
    (begun : first.kind ≠ .semicolon) (statement : Value → Statement)
    (read : ∀ place value, token.value = .ok value →
      readStatement place first tokens = .ok (statement value, []))
    (refused : ∀ place refusal, token.value = .error refusal →
      readStatement place first tokens = .error (refusal.atToken place token))
    (executed : ∀ value, Program.evaluate scope [statement value] =
      ⟨(done value).2, (done value).1, none⟩) :
    TurnsOn token (interpret mode line scope) scope done where
  valued value denoted := by
    have program : Program.ofTokens (Token.ofLine mode line) = .ok [statement value] := by
      rw [cut, Program.ofTokens, Grammar.readFrom_of_readStatement begun (read _ value denoted),
        Program.readFrom]
      rfl
    rw [interpret_of_ok program, executed]
    exact ⟨rfl, rfl⟩
  refused refusal found := by
    have rejected : Program.ofTokens (Token.ofLine mode line) =
        .error (refusal.atToken ⟨1, token.span.stop⟩ token) := by
      rw [cut, Program.ofTokens,
        Grammar.readFrom_of_readStatement_error begun (refused _ refusal found), Program.lineEnd,
        last]
    rw [interpret_of_error rejected]
    exact ⟨rfl, rfl⟩

theorem turnsOn_print {keyword : Token} (cut : Token.ofLine mode line = [keyword, token])
    (printing : keyword.kind = .printWord) (literal : token.kind.isLiteral = true) :
    TurnsOn token (interpret mode line scope) scope fun value => ([.printed value], scope) := by
  apply turnsOn_of_read token cut rfl (by simp [printing]) fun value =>
    .print (.literal ⟨value, token.span⟩) ⟨keyword.span.start, token.span.stop⟩
  · intro place value denoted
    simp [readStatement, printing, readPrint, Argument.ofToken, literal, Literal.ofToken, denoted,
      Except.map]
  · intro place refusal refused
    simp [readStatement, printing, readPrint, Argument.ofToken, literal, Literal.ofToken, refused,
      Except.map]
  · intro value
    rfl

theorem turnsOn_let {keyword name sign : Token}
    (cut : Token.ofLine mode line = [keyword, name, sign, token])
    (declaring : keyword.kind = .letWord) (named : name.kind = .identifier)
    (assigning : sign.kind = .assign) (free : scope.isLocked name.lexeme = false) :
    TurnsOn token (interpret mode line scope) scope fun value =>
      let entry : Entry := ⟨.mutable, value.type, value⟩
      ([.declared name.lexeme entry], scope.bind name.lexeme entry) := by
  apply turnsOn_of_read token cut rfl (by simp [declaring]) fun value =>
    .declare ⟨.mutable, name.lexeme, none, some ⟨value, token.span⟩⟩
      ⟨keyword.span.start, token.span.stop⟩
  · intro place value denoted
    simp [readStatement, declaring, readDeclaration, named, splitTypeTag, splitInitializer,
      assigning, readValue, Literal.ofToken, denoted, declarationEnd]
  · intro place refusal refused
    simp [readStatement, declaring, readDeclaration, named, splitTypeTag, splitInitializer,
      assigning, readValue, Literal.ofToken, refused]
  · intro value
    simp only [Program.evaluate, Statement.execute, Scope.declare, free, Bool.false_eq_true,
      if_false]
    rfl

end OneLiteral

/-! ## Integers in lines -/

theorem Token.value_of_denotes {token : Token} {v : Int} (kind : token.kind = .number)
    (denotes : DenotesInteger token.lexeme.toList v) :
    (FitsInt64 v → token.value = .ok (.int (Int64.ofInt v))) ∧
      (¬ FitsInt64 v → token.value = .error (.integerOutOfRange token.lexeme)) := by
  obtain ⟨inside, outside⟩ := Numeral.int64?_of_denotes denotes
  constructor
  · intro fits
    simp only [value, kind, inside fits]
  · intro beyond
    simp only [value, kind, outside beyond]

/-- A text is taken for an integer, which one line binds and another prints. -/
structure TakenFor (mode : Mode) (scope : Scope) (name text : String) (n : Int64) : Prop where
  bound : (interpret mode ("let " ++ name ++ " = " ++ text) scope).outcome =
    .completed [.declared name ⟨.mutable, .int, .int n⟩]
  stored : (interpret mode ("let " ++ name ++ " = " ++ text) scope).scope =
    scope.bind name ⟨.mutable, .int, .int n⟩
  printed : (interpret mode ("print " ++ text) scope).outcome = .completed [.printed (.int n)]
  kept : (interpret mode ("print " ++ text) scope).scope = scope

/-- A line is rejected at an integer numeral and changes nothing. -/
structure RejectedAt (span : Span) (interpretation : Interpretation) (scope : Scope) : Prop where
  rejected : ∃ diagnostic position statement, interpretation.outcome = .rejected diagnostic ∧
    diagnostic.kind = .unreadable (some .number) position statement ∧ diagnostic.span = span
  kept : interpretation.scope = scope

section Integers

variable {mode : Mode} {scope : Scope} {name text : String} {v : Int}
  (named : isIdentifier name.toList = true) (unreserved : Token.keywords.lookup name = none)
  (free : scope.isLocked name = false) (denotes : DenotesInteger text.toList v)

include named unreserved free denotes

theorem takenFor_of_fits (fits : FitsInt64 v) :
    TakenFor mode scope name text (Int64.ofInt v) := by
  have single := Token.ofLine_integer mode denotes
  have given := turnsOn_let (Token.ofLine_let named unreserved single) rfl rfl rfl free
  have shown : TurnsOn _ _ scope _ := turnsOn_print (Token.ofLine_print single) rfl rfl
  obtain ⟨bound, stored⟩ := given.valued _ ((Token.value_of_denotes rfl denotes).1 fits)
  obtain ⟨printed, kept⟩ := shown.valued _ ((Token.value_of_denotes rfl denotes).1 fits)
  exact ⟨bound, stored, printed, kept⟩

theorem rejectedAt_of_not_fits (beyond : ¬ FitsInt64 v) :
    RejectedAt ⟨("let " ++ name ++ " = ").length, ("let " ++ name ++ " = " ++ text).length⟩
      (interpret mode ("let " ++ name ++ " = " ++ text) scope) scope ∧
    RejectedAt ⟨"print ".length, ("print " ++ text).length⟩
      (interpret mode ("print " ++ text) scope) scope := by
  have single := Token.ofLine_integer mode denotes
  have given := turnsOn_let (Token.ofLine_let named unreserved single) rfl rfl rfl free
  have shown : TurnsOn _ _ scope _ := turnsOn_print (Token.ofLine_print single) rfl rfl
  obtain ⟨rejected, kept⟩ := given.refused _ ((Token.value_of_denotes rfl denotes).2 beyond)
  obtain ⟨alsoRejected, alsoKept⟩ := shown.refused _ ((Token.value_of_denotes rfl denotes).2 beyond)
  have start : ("let " ++ name ++ " = ").length = name.length + 7 := by
    have lengths : "let ".length = 4 ∧ " = ".length = 3 := ⟨rfl, rfl⟩
    rw [String.length_append, String.length_append, lengths.1, lengths.2]
    omega
  have stop : ("let " ++ name ++ " = " ++ text).length = name.length + 7 + text.length := by
    rw [String.length_append, start]
  have stop_print : ("print " ++ text).length = 6 + text.length := String.length_append _ _
  rw [start, stop, stop_print]
  exact ⟨⟨⟨_, _, _, rejected, rfl, rfl⟩, kept⟩, ⟨⟨_, _, _, alsoRejected, rfl, rfl⟩, alsoKept⟩⟩

end Integers

/-- A numeral in a line means the integer that it denotes, if sixty-four bits hold it, and so
does the text that is shown for that integer.  If they do not, the line is rejected at
the numeral. -/
theorem integer_numeral_exact_or_rejected (mode : Mode) (scope : Scope) {name text : String}
    {v : Int} (named : isIdentifier name.toList = true)
    (unreserved : name ∉ Token.keywords.map (·.1)) (free : scope.isLocked name = false)
    (denotes : DenotesInteger text.toList v) :
    (FitsInt64 v → ∃ n : Int64, n.toInt = v ∧ TakenFor mode scope name text n ∧
      TakenFor mode scope name (Value.int n).display n) ∧
    (¬ FitsInt64 v →
      RejectedAt ⟨("let " ++ name ++ " = ").length, ("let " ++ name ++ " = " ++ text).length⟩
        (interpret mode ("let " ++ name ++ " = " ++ text) scope) scope ∧
      RejectedAt ⟨"print ".length, ("print " ++ text).length⟩
        (interpret mode ("print " ++ text) scope) scope) := by
  have missing : Token.keywords.lookup name = none := by
    rw [List.lookup_eq_none_iff]
    intro keyword member
    have other : name ≠ keyword.1 := fun same => unreserved (same ▸ List.mem_map_of_mem member)
    simpa using other
  refine ⟨fun fits => ?_, rejectedAt_of_not_fits named missing free denotes⟩
  have value := fits.toInt_ofInt
  have again : DenotesInteger (Value.int (Int64.ofInt v)).display.toList v := by
    rw [Value.display, value]
    exact Numeral.denotes_integerText v
  exact ⟨Int64.ofInt v, value, takenFor_of_fits named missing free denotes fits,
    takenFor_of_fits named missing free again fits⟩

theorem integer_numeral_exact_or_rejected_at_least :
    let least := "-009223372036854775808"
    let beyond := "9223372036854775808"
    (∃ n : Int64, n = Int64.minValue ∧ TakenFor .terminating .empty "lets" least n) ∧
      RejectedAt ⟨11, 30⟩ (interpret .annotating ("let lets = " ++ beyond) .empty) .empty := by
  intro least beyond
  have digits : IsDigits "009223372036854775808".toList ∧ IsDigits beyond.toList :=
    ⟨⟨by decide, List.all_eq_true.mp (by decide)⟩, ⟨by decide, List.all_eq_true.mp (by decide)⟩⟩
  have values : Nat.ofDigitChars 10 "009223372036854775808".toList 0 = 2 ^ 63 ∧
      Nat.ofDigitChars 10 beyond.toList 0 = 2 ^ 63 := by decide
  have spelled : least.toList = '-' :: "009223372036854775808".toList := by decide
  have denotes : DenotesInteger least.toList (-2 ^ 63) := by
    have numeral := DenotesInteger.negative digits.1
    rwa [values.1, ← spelled] at numeral
  have denotesBeyond : DenotesInteger beyond.toList (2 ^ 63) := by
    have numeral := DenotesInteger.unsigned digits.2
    rwa [values.2] at numeral
  have named : isIdentifier "lets".toList = true := by decide
  have inside := integer_numeral_exact_or_rejected .terminating .empty named (by decide) (by decide)
    denotes
  have outside := integer_numeral_exact_or_rejected .annotating .empty named (by decide) (by decide)
    denotesBeyond
  obtain ⟨n, value, taken, -⟩ := inside.1 (by decide)
  have line : "let " ++ "lets" ++ " = " = "let lets = " := by decide
  have lengths : "let lets = ".length = 11 ∧ ("let lets = " ++ beyond).length = 30 := by decide
  have rejected := (outside.2 (by decide)).1
  rw [line, lengths.1, lengths.2] at rejected
  exact ⟨⟨n, Int64.toInt_inj.mp value, taken⟩, rejected⟩

end LineScript
