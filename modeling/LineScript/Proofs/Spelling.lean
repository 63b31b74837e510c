import LineScript.Proofs.Joining

/-!
# Texts of values and names

Every literal value that can be written has texts that read back as it: an integer its
decimal text, a truth value its keyword, a text itself between two marks it does not
hold, and a floating-point number any fraction that is read as it.  Such a text, like a
name or a reference, gives one token of its kind.
-/

namespace LineScript

open LineScript.Piece

/-! ## Values -/

/-- Digits on both sides of a point, behind a minus sign or not. -/
inductive IsFraction : List Char → Prop
  | positive {whole fraction : List Char} (digital : IsDigits whole) (behind : IsDigits fraction) :
      IsFraction (whole ++ '.' :: fraction)
  | negative {whole fraction : List Char} (digital : IsDigits whole) (behind : IsDigits fraction) :
      IsFraction ('-' :: (whole ++ '.' :: fraction))

inductive Value.Spelled : Value → String → Prop
  | int (n : Int64) : Spelled (.int n) (Numeral.integerText n.toInt)
  | float {x : Binary64} {text : String} (form : IsFraction text.toList)
      (read : Binary64.read? text = some x) : Spelled (.float x) text
  | str {text : String} {mark : Char} (quote : isQuote mark = true) (free : mark ∉ text.toList) :
      Spelled (.str text) (String.ofList (mark :: (text.toList ++ [mark])))
  | bool (b : Bool) : Spelled (.bool b) (if b then "true" else "false")

theorem isDigits_naturalDigits (n : Nat) : IsDigits (Numeral.naturalDigits n) :=
  ⟨Nat.toDigits_ne_nil, fun _ member =>
    Nat.isDigit_of_mem_toDigits (by decide) (by decide) member⟩

theorem Numeral.splitSign_of_beginsWithDigit {chars : List Char}
    (begins : Piece.beginsWithDigit chars = true) : splitSign chars = (false, chars) := by
  cases chars with
  | nil => contradiction
  | cons c rest =>
      have minus : c ≠ '-' := by
        rintro rfl
        contradiction
      have plus : c ≠ '+' := by
        rintro rfl
        contradiction
      simp [splitSign, minus, plus]

theorem Numeral.integer?_integerText (n : Int) : integer? (integerText n).toList = some n := by
  have digital := isDigits_naturalDigits n.natAbs
  rw [integerText]
  split
  next negative =>
    have sign : splitSign ('-' :: naturalDigits n.natAbs) = (true, naturalDigits n.natAbs) := rfl
    have value : -(n.natAbs : Int) = n := by omega
    simp only [String.toList_ofList, integer?, sign, natural?_naturalDigits]
    exact congrArg some value
  next positive =>
    have sign := splitSign_of_beginsWithDigit digital.beginsWithDigit
    have value : (n.natAbs : Int) = n := by omega
    simp only [String.toList_ofList, integer?, sign, natural?_naturalDigits]
    exact congrArg some value

theorem Numeral.int64?_integerText (n : Int64) : int64? (integerText n.toInt) = some n := by
  have low := Int64.minValue_le_toInt n
  have high := Int64.toInt_le n
  simp only [int64?, integer?_integerText, low, high, and_self, if_true, Int64.ofInt_toInt]

/-! ## Tokens of a word -/

section OneToken

variable {mode : Mode} {line text : String} {span : Span} {kind : TokenKind} {type : TypeName}

theorem ofLine_of_scan (scanned : scan mode line = [⟨.text text, span⟩])
    (plain : Token.referenceName? text.toList = none)
    (found : Token.kindOfText text = (kind, type)) :
    Token.ofLine mode line = [⟨kind, text, 0, span, type⟩] := by
  simp only [Token.ofLine, scanned, List.mapIdx_cons, List.mapIdx_nil, Token.classify, plain, found]

theorem referenceName?_eq_none {chars : List Char} (other : chars.head? ≠ some '?') :
    Token.referenceName? chars = none := by
  cases chars with
  | nil => rfl
  | cons c rest =>
      have different : c ≠ '?' := by simpa using other
      simp [Token.referenceName?, different]

theorem head?_name_ne {name : List Char} (named : isIdentifier name = true) :
    name.head? ≠ some '?' := by
  intro head
  exact absurd (continuesIdentifier_of_mem named '?' (List.mem_of_head? head)) (by decide)

theorem ofLine_name (mode : Mode) {name : String} (named : isIdentifier name.toList = true)
    (free : Token.keywords.lookup name = none) :
    Token.ofLine mode name = [⟨.identifier, name, 0, ⟨0, name.length⟩, .void⟩] := by
  have scanned := scanFrom_name mode 0 [] named endsRuns_nil
  exact ofLine_of_scan (by simpa [scan, scanFrom, String.length_toList] using scanned)
    (referenceName?_eq_none (head?_name_ne named)) (Token.kindOfText_name named free)

theorem ofLine_numeral (mode : Mode)
    (form : IsUnsigned text.toList ∨ ∃ chars, text.toList = '-' :: chars ∧ IsUnsigned chars)
    (found : Token.numeralKind? text.toList = some kind) :
    Token.ofLine mode text =
      [⟨kind, text, 0, ⟨0, text.length⟩, if kind = .float then .float else .int⟩] := by
  rcases form with unsigned | ⟨chars, spelled, unsigned⟩
  · have scanned := scanFrom_unsigned mode 0 unsigned
    obtain ⟨c, rest, spelled, digit⟩ := exists_digit_of_unsigned unsigned
    have other : c ≠ '?' := by
      rintro rfl
      contradiction
    exact ofLine_of_scan (by simpa [scan, String.length_toList] using scanned)
      (referenceName?_eq_none (by simpa [spelled] using other))
      (Token.kindOfText_numeral (by simp [spelled]) digit found)
  · have scanned := scanFrom_negative mode 0 unsigned
    have length : text.length = chars.length + 1 := by
      rw [← String.length_toList, spelled, List.length_cons]
    rw [← spelled] at scanned
    obtain ⟨c, rest, rfl, digit⟩ := exists_digit_of_unsigned unsigned
    exact ofLine_of_scan (by simpa [scan, length] using scanned)
      (referenceName?_eq_none (by simp [spelled]))
      (Token.kindOfText_numeral (by simp [spelled]) digit found)

theorem ofLine_fraction (mode : Mode) (form : IsFraction text.toList) :
    Token.ofLine mode text = [⟨.float, text, 0, ⟨0, text.length⟩, .float⟩] := by
  apply ofLine_numeral mode
  · generalize text.toList = chars at form
    cases form with
    | positive digital behind => exact .inl (.fraction digital behind)
    | negative digital behind => exact .inr ⟨_, rfl, .fraction digital behind⟩
  · generalize text.toList = chars at form
    cases form with
    | positive digital behind => exact Token.numeralKind?_fraction digital behind.2
    | negative digital behind =>
        obtain ⟨c, rest, spelled, digit⟩ :=
          exists_digit_of_unsigned (.fraction digital behind)
        rw [Token.numeralKind?_negative (by rw [spelled]; exact digit),
          Token.numeralKind?_fraction digital behind.2]

end OneToken

/-! ## Tokens of a word, wherever it stands -/

/-- A token that stands nowhere in particular. -/
def Token.bare (kind : TokenKind) (lexeme : String) (inferred : TypeName) : Token :=
  ⟨kind, lexeme, 0, ⟨0, 0⟩, inferred⟩

/-- The tokens that a line gives, apart from where they stand. -/
def Lexes (line : String) (tokens : List Token) : Prop :=
  (Token.ofLine .annotating line).map (·.relocate .erase) = tokens

instance (line : String) (tokens : List Token) : Decidable (Lexes line tokens) :=
  inferInstanceAs (Decidable (_ = tokens))

theorem lexes_of_ofLine {line lexeme : String} {kind : TokenKind} {span : Span} {type : TypeName}
    (tokens : Token.ofLine .annotating line = [⟨kind, lexeme, 0, span, type⟩]) :
    Lexes line [.bare kind lexeme type] := by
  rw [Lexes, tokens]
  rfl

theorem lexes_name {name : String} (named : isIdentifier name.toList = true)
    (free : Token.keywords.lookup name = none) : Lexes name [.bare .identifier name .void] :=
  lexes_of_ofLine (ofLine_name .annotating named free)

theorem lexes_tagged {name : String} (named : isIdentifier name.toList = true)
    (free : Token.keywords.lookup name = none) {type : TypeName} (written : type ≠ .any) :
    Lexes (name ++ ";" ++ type.name)
      [.bare .identifier name .void, .bare .typeTag type.name type] := by
  have chars : (name ++ ";" ++ type.name).toList = name.toList ++ ';' :: type.name.toList := by
    simp
  simp only [Lexes, Token.ofLine, scan, chars, scanFrom_tagged 0 named written, List.mapIdx_cons,
    List.mapIdx_nil, Token.classify, String.ofList_toList,
    referenceName?_eq_none (head?_name_ne named), Token.kindOfText_name named free]
  rfl

theorem lexes_reference {name : String} (named : isIdentifier name.toList = true) :
    Lexes ("?" ++ name) [.bare .reference name .any] := by
  have chars : ("?" ++ name).toList = '?' :: name.toList := by simp
  have reference : Token.referenceName? ('?' :: name.toList) = some name.toList := by
    simp [Token.referenceName?, named]
  simp only [Lexes, Token.ofLine, scan, chars, scanFrom_reference .annotating 0 named,
    List.mapIdx_cons, List.mapIdx_nil, Token.classify, String.toList_ofList, reference,
    String.ofList_toList]
  rfl

theorem lexes_quoted {mark : Char} {chars : List Char} (quote : isQuote mark = true)
    (free : mark ∉ chars) :
    Lexes (String.ofList (mark :: (chars ++ [mark])))
      [.bare .string (String.ofList (mark :: (chars ++ [mark]))) .str] := by
  have other : mark ≠ '?' := by
    rintro rfl
    contradiction
  have scanned := scanFrom_quoted .annotating 0 quote free
  exact lexes_of_ofLine (ofLine_of_scan (by rw [scan, String.toList_ofList, scanned])
    (referenceName?_eq_none (by simpa using other)) (Token.kindOfText_quoted quote chars))

theorem lexes_numeral {text : String} {kind : TokenKind}
    (form : IsUnsigned text.toList ∨ ∃ chars, text.toList = '-' :: chars ∧ IsUnsigned chars)
    (found : Token.numeralKind? text.toList = some kind) :
    Lexes text [.bare kind text (if kind = .float then .float else .int)] :=
  lexes_of_ofLine (ofLine_numeral .annotating form found)

theorem lexes_integer (n : Int) :
    Lexes (Numeral.integerText n) [.bare .number (Numeral.integerText n) .int] := by
  have digital := isDigits_naturalDigits n.natAbs
  rw [Numeral.integerText]
  split
  · apply lexes_numeral
    · exact .inr ⟨_, String.toList_ofList, .whole digital⟩
    · rw [String.toList_ofList, Token.numeralKind?_negative digital.beginsWithDigit,
        Token.numeralKind?_digits digital]
  · apply lexes_numeral
    · exact .inl (by rw [String.toList_ofList]; exact .whole digital)
    · rw [String.toList_ofList, Token.numeralKind?_digits digital]

theorem lexes_fraction {text : String} (form : IsFraction text.toList) :
    Lexes text [.bare .float text .float] :=
  lexes_of_ofLine (ofLine_fraction .annotating form)

/-- A text of a value gives one token, which denotes the value. -/
theorem Value.Spelled.lexes {value : Value} {text : String} (spelled : value.Spelled text) :
    ∃ token, Lexes text [token] ∧ Grammar.Denotes token value := by
  cases spelled with
  | int n =>
      exact ⟨_, lexes_integer n.toInt, .integer rfl (Numeral.int64?_integerText n)⟩
  | float form read => exact ⟨_, lexes_fraction form, .float rfl read⟩
  | @str text mark quote free =>
      refine ⟨_, lexes_quoted quote free, ?_⟩
      have denotes : Grammar.Denotes (.bare .string
        (String.ofList (mark :: (text.toList ++ [mark]))) .str) _ := .string rfl
      simpa [Token.bare] using denotes
  | bool b =>
      cases b with
      | true => exact ⟨.bare .trueWord "true" .bool, by decide +kernel, .trueWord rfl⟩
      | false => exact ⟨.bare .falseWord "false" .bool, by decide +kernel, .falseWord rfl⟩

end LineScript
