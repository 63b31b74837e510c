import LineScript.Proofs.Tiling
import Mathlib.Data.List.TakeWhile

/-!
# Words that are one piece

A name, a numeral, a reference and a quoted text are each cut off a line in one piece, and
a name with a type behind a semicolon in two.  A run goes on through letters, digits,
underscores and dollar signs, and through one point between digits.
-/

namespace LineScript.Piece

open LineScript.Text

/-! ## Characters of names -/

theorem isAlpha_iff_toNat {c : Char} :
    c.isAlpha = true ↔ 65 ≤ c.toNat ∧ c.toNat ≤ 90 ∨ 97 ≤ c.toNat ∧ c.toNat ≤ 122 := by
  have split : c.isAlpha = (decide ('A'.val ≤ c.val ∧ c.val ≤ 'Z'.val) ||
      (decide ('a'.val ≤ c.val) && decide (c.val ≤ 'z'.val))) := rfl
  simp only [split, Bool.or_eq_true, Bool.and_eq_true, decide_eq_true_eq]
  exact Iff.rfl

theorem toNat_of_continuesIdentifier {c : Char} (continues : continuesIdentifier c = true) :
    c.toNat = 36 ∨ c.toNat = 95 ∨ 48 ≤ c.toNat ∧ c.toNat ≤ 57 ∨
      65 ≤ c.toNat ∧ c.toNat ≤ 90 ∨ 97 ≤ c.toNat ∧ c.toNat ≤ 122 := by
  simp only [continuesIdentifier, Char.isAlphanum, Bool.or_eq_true, isAlpha_iff_toNat,
    beq_iff_eq] at continues
  rcases continues with ((letter | digit) | rfl) | rfl
  · exact .inr (.inr (.inr letter))
  · exact .inr (.inr (.inl (Char.isDigit_iff_toNat.mp digit)))
  · exact .inr (.inl rfl)
  · exact .inl rfl

theorem continuesIdentifier_of_isDigit {c : Char} (digit : c.isDigit = true) :
    continuesIdentifier c = true := by
  simp [continuesIdentifier, Char.isAlphanum, digit]

theorem not_isAlpha_of_isDigit {c : Char} (digit : c.isDigit = true) : c.isAlpha = false := by
  have high : c.toNat ≤ 57 := (Char.isDigit_iff_toNat.mp digit).2
  rw [Bool.eq_false_iff, ne_eq, isAlpha_iff_toNat]
  omega

theorem not_isDigit_of_begins {c : Char} (begins : beginsIdentifier c = true) :
    c.isDigit = false := by
  cases digit : c.isDigit with
  | false => rfl
  | true =>
      simp only [beginsIdentifier, not_isAlpha_of_isDigit digit, Bool.false_or, Bool.or_eq_true,
        beq_iff_eq] at begins
      rcases begins with rfl | rfl <;> contradiction

theorem continuesIdentifier_of_begins {c : Char} (begins : beginsIdentifier c = true) :
    continuesIdentifier c = true := by
  simp only [beginsIdentifier, continuesIdentifier, Char.isAlphanum, Bool.or_eq_true] at begins ⊢
  rcases begins with (alpha | underscore) | dollar
  · exact .inl (.inl (.inl alpha))
  · exact .inl (.inr underscore)
  · exact .inr dollar

theorem continuesIdentifier_of_mem {name : List Char} (named : isIdentifier name = true) :
    ∀ c ∈ name, continuesIdentifier c = true := by
  cases name with
  | nil => contradiction
  | cons first rest =>
      rw [isIdentifier, Bool.and_eq_true, List.all_eq_true] at named
      exact List.forall_mem_cons.mpr ⟨continuesIdentifier_of_begins named.1, named.2⟩

theorem not_isBlank_of_continuesIdentifier {c : Char} (continues : continuesIdentifier c = true) :
    isBlank c = false := by
  have range := toNat_of_continuesIdentifier continues
  simp [isBlank, inRanges, blankRanges]
  omega

theorem isIdentifier_typeName (type : TypeName) : isIdentifier type.name.toList = true := by
  cases type <;> decide

theorem not_isBlank_of_mem_typeName {type : TypeName} {c : Char} (member : c ∈ type.name.toList) :
    isBlank c = false :=
  not_isBlank_of_continuesIdentifier
    (continuesIdentifier_of_mem (isIdentifier_typeName type) c member)

theorem eq_of_isQuote {mark : Char} (quote : isQuote mark = true) : mark = '"' ∨ mark = '\'' := by
  simpa [isQuote, quoteMarks] using quote

theorem notMem_of_continuesIdentifier {c : Char} (continues : continuesIdentifier c = true)
    {chars : List Char} (others : chars.any continuesIdentifier = false) : c ∉ chars := by
  intro member
  have clash := List.any_eq_true.mpr ⟨c, member, continues⟩
  rw [others] at clash
  contradiction

theorem operator?_of_continuesIdentifier {c : Char} (continues : continuesIdentifier c = true)
    (after : List Char) : operator? (c :: after) = none := by
  have foreign : ∀ operator ∈ operators, operator.any continuesIdentifier = false := by decide
  have nonempty : ∀ operator ∈ operators, operator ≠ [] := by decide
  rw [operator?, List.find?_eq_none]
  intro operator member fits
  obtain ⟨behind, split⟩ := List.isPrefixOf_iff_prefix.mp fits
  cases operator with
  | nil => exact nonempty [] member rfl
  | cons other rest =>
      obtain ⟨rfl, -⟩ := List.cons.inj split
      exact notMem_of_continuesIdentifier continues (foreign _ member) List.mem_cons_self

theorem nextCut_of_continuesIdentifier (mode : Mode) (touching : List Char) {c : Char}
    (continues : continuesIdentifier c = true) (after : List Char) :
    nextCut mode touching c after = ⟨.run, 0, runLength c.isDigit after + 1⟩ := by
  have quote : c ∉ quoteMarks := notMem_of_continuesIdentifier continues (by decide)
  have symbol : c ∉ symbols := notMem_of_continuesIdentifier continues (by decide)
  have signs : c ∉ [';', '-'] := notMem_of_continuesIdentifier continues (by decide)
  simp only [List.mem_cons, List.not_mem_nil, or_false, not_or] at signs
  simp [nextCut, isQuote, isSymbol, quote, symbol, signs,
    operator?_of_continuesIdentifier continues]

/-! ## Runs -/

theorem runLength_append_of_continues {chars : List Char}
    (continues : ∀ c ∈ chars, continuesIdentifier c = true) (whole : Bool) (rest : List Char) :
    runLength whole (chars ++ rest) =
      chars.length + runLength (whole && chars.all Char.isDigit) rest := by
  induction chars generalizing whole with
  | nil => simp
  | cons c after ih =>
      obtain ⟨first, others⟩ := List.forall_mem_cons.mp continues
      have point : c ≠ '.' := by
        rintro rfl
        contradiction
      have goesOn : endsRun c (after ++ rest) = false := by
        have quote : c ∉ quoteMarks := notMem_of_continuesIdentifier first (by decide)
        have symbol : c ∉ symbols := notMem_of_continuesIdentifier first (by decide)
        have semicolon : c ≠ ';' := by
          rintro rfl
          contradiction
        simp [endsRun, isQuote, isSymbol, not_isBlank_of_continuesIdentifier first, quote, symbol,
          semicolon, operator?_of_continuesIdentifier first]
      simp only [List.cons_append, runLength, beq_iff_eq, point, Bool.and_eq_true, and_false,
        false_and, if_false, goesOn, Bool.false_eq_true, ih others, List.all_cons, List.length_cons,
        Bool.and_assoc]
      omega

theorem quotedLength_append_of_notMem {mark : Char} {chars : List Char} (free : mark ∉ chars)
    (rest : List Char) :
    quotedLength mark (chars ++ rest) = chars.length + quotedLength mark rest := by
  induction chars with
  | nil => simp
  | cons c after ih =>
      obtain ⟨other, missing⟩ := not_or.mp (mt List.mem_cons.mpr free)
      rw [List.cons_append, quotedLength, if_neg (Ne.symm other), ih missing, List.length_cons]
      omega

theorem quotedLength_of_notMem {mark : Char} {chars : List Char} (free : mark ∉ chars) :
    quotedLength mark chars = chars.length := by
  simpa [quotedLength] using quotedLength_append_of_notMem free []

/-- The next piece is cut off whole. -/
theorem scanFrom_append_of_nextCut {mode : Mode} {touching : List Char} {c : Char}
    {chars rest : List Char} {shape : Shape} (solid : isBlank c = false)
    (plain : ∀ type, shape ≠ .typeTag type)
    (cut : nextCut mode touching c (chars ++ rest) = ⟨shape, 0, chars.length + 1⟩)
    (position : Nat) :
    scanFrom mode position touching (c :: chars ++ rest) =
      ⟨.text (String.ofList (c :: chars)), ⟨position, position + (chars.length + 1)⟩⟩ ::
        scanFrom mode (position + (chars.length + 1)) (shape.touching (c :: chars)) rest := by
  rw [List.cons_append, scanFrom]
  simp only [solid, Bool.false_eq_true, if_false, cut, Nat.add_zero, List.drop_zero,
    List.take_succ_cons, List.take_left, List.drop_succ_cons, List.drop_left,
    Shape.content_of_no_tag plain]

/-- A text that no run goes on with. -/
def EndsRuns (rest : List Char) : Prop := ∀ whole, runLength whole rest = 0

theorem endsRuns_nil : EndsRuns [] := fun _ => rfl

theorem endsRuns_blank {blank : Char} (isBlank_blank : isBlank blank = true) (after : List Char) :
    EndsRuns (blank :: after) := by
  have point : blank ≠ '.' := by
    rintro rfl
    contradiction
  intro whole
  simp [runLength, point, endsRun, isBlank_blank]

theorem endsRuns_semicolon (after : List Char) : EndsRuns (';' :: after) := by
  intro whole
  simp [runLength, endsRun]

theorem scanFrom_name (mode : Mode) (position : Nat) (touching : List Char) {name rest : List Char}
    (named : isIdentifier name = true) (ends : EndsRuns rest) :
    scanFrom mode position touching (name ++ rest) =
      ⟨.text (String.ofList name), ⟨position, position + name.length⟩⟩ ::
        scanFrom mode (position + name.length) name rest := by
  have continues := continuesIdentifier_of_mem named
  cases name with
  | nil => contradiction
  | cons c chars =>
      obtain ⟨first, others⟩ := List.forall_mem_cons.mp continues
      have cut : nextCut mode touching c (chars ++ rest) = ⟨.run, 0, chars.length + 1⟩ := by
        rw [nextCut_of_continuesIdentifier mode touching first,
          runLength_append_of_continues others, ends]
      exact scanFrom_append_of_nextCut (not_isBlank_of_continuesIdentifier first) (by simp) cut
        position

theorem scanFrom_reference (mode : Mode) (position : Nat) {name : List Char}
    (named : isIdentifier name = true) :
    scanFrom mode position [] ('?' :: name) =
      [⟨.text (String.ofList ('?' :: name)), ⟨position, position + (name.length + 1)⟩⟩] := by
  have sign : operator? ('?' :: name) = none := by
    simp [operator?, operators, List.isPrefixOf]
  have length : runLength false name = name.length := by
    simpa [runLength] using
      runLength_append_of_continues (continuesIdentifier_of_mem named) false []
  have cut : nextCut mode [] '?' (name ++ []) = ⟨.run, 0, name.length + 1⟩ := by
    simp [nextCut, sign, isQuote, quoteMarks, isSymbol, symbols, length]
  have scanned := scanFrom_append_of_nextCut (by decide) (by simp) cut position
  simpa [scanFrom] using scanned

/-- A name and the type behind its semicolon, up to the end of the line. -/
theorem scanFrom_tagged (position : Nat) {name : List Char} (named : isIdentifier name = true)
    {type : TypeName} (written : type ≠ .any) :
    scanFrom .annotating position [] (name ++ ';' :: type.name.toList) =
      [⟨.text (String.ofList name), ⟨position, position + name.length⟩⟩,
        ⟨.typeTag type, ⟨position + name.length + 1,
          position + name.length + 1 + type.name.length⟩⟩] := by
  have announced : announcedType? type.name.toList = some type := by
    refine announcedType?_eq_some_iff.mpr ⟨written, (List.takeWhile_eq_self_iff.mpr ?_).symm⟩
    intro c member
    simp [not_isBlank_of_mem_typeName member]
  have cut : nextCut .annotating name ';' type.name.toList =
      ⟨.typeTag type, 1, type.name.length⟩ := by
    exact nextCut_typeTag named announced
  rw [scanFrom_name .annotating position [] named (endsRuns_semicolon _), scanFrom]
  have blank : isBlank ';' = false := by decide
  have length : type.name.toList.length = type.name.length := String.length_toList
  have done : type.name.toList.drop type.name.length = [] := by rw [← length, List.drop_length]
  simp [blank, cut, done, Shape.content, scanFrom]

theorem not_isBlank_of_isQuote {mark : Char} (quote : isQuote mark = true) :
    isBlank mark = false := by
  rcases eq_of_isQuote quote with rfl | rfl <;> decide

theorem scanFrom_closed (mode : Mode) (position : Nat) (touching : List Char) {mark : Char}
    {chars : List Char} (quote : isQuote mark = true) (free : mark ∉ chars) (rest : List Char) :
    scanFrom mode position touching (mark :: (chars ++ [mark]) ++ rest) =
      ⟨.text (String.ofList (mark :: (chars ++ [mark]))),
        ⟨position, position + (chars.length + 2)⟩⟩ ::
        scanFrom mode (position + (chars.length + 2)) [] rest := by
  have length : quotedLength mark (chars ++ [mark] ++ rest) = chars.length + 1 := by
    rw [List.append_assoc, quotedLength_append_of_notMem free, List.singleton_append,
      quotedLength, if_pos rfl]
  have cut : nextCut mode touching mark (chars ++ [mark] ++ rest) =
      ⟨.quoted, 0, (chars ++ [mark]).length + 1⟩ := by
    rw [nextCut_of_isQuote mode touching quote, length]
    simp
  have scanned :=
    scanFrom_append_of_nextCut (not_isBlank_of_isQuote quote) (by simp) cut position
  simpa [Shape.touching] using scanned

theorem scanFrom_quoted (mode : Mode) (position : Nat) {mark : Char} {chars : List Char}
    (quote : isQuote mark = true) (free : mark ∉ chars) :
    scanFrom mode position [] (mark :: (chars ++ [mark])) =
      [⟨.text (String.ofList (mark :: (chars ++ [mark]))),
        ⟨position, position + (chars.length + 2)⟩⟩] := by
  simpa [scanFrom] using scanFrom_closed mode position [] quote free []

end LineScript.Piece

/-! ## Numerals -/

namespace LineScript

def IsDigits (chars : List Char) : Prop := chars ≠ [] ∧ ∀ c ∈ chars, c.isDigit = true

/-- Digits, or digits on both sides of a point. -/
inductive IsUnsigned : List Char → Prop
  | whole {digits : List Char} (digital : IsDigits digits) : IsUnsigned digits
  | fraction {whole fraction : List Char} (digital : IsDigits whole)
      (behind : IsDigits fraction) : IsUnsigned (whole ++ '.' :: fraction)

/-- Digits, with a minus sign before them or without, and the integer they denote. -/
inductive DenotesInteger : List Char → Int → Prop
  | unsigned {digits : List Char} (digital : IsDigits digits) :
      DenotesInteger digits (Nat.ofDigitChars 10 digits 0)
  | negative {digits : List Char} (digital : IsDigits digits) :
      DenotesInteger ('-' :: digits) (-(Nat.ofDigitChars 10 digits 0 : Nat))

theorem IsDigits.beginsWithDigit {chars : List Char} (digital : IsDigits chars) :
    Piece.beginsWithDigit chars = true := by
  obtain ⟨nonempty, digits⟩ := digital
  cases chars with
  | nil => contradiction
  | cons c rest => exact digits c List.mem_cons_self

theorem IsDigits.beginsWithDigit_append {chars : List Char} (digital : IsDigits chars)
    (rest : List Char) : Piece.beginsWithDigit (chars ++ rest) = true := by
  obtain ⟨c, others, rfl⟩ := List.exists_cons_of_ne_nil digital.1
  exact digital.beginsWithDigit

theorem count_point_of_digits {chars : List Char} (digits : ∀ c ∈ chars, c.isDigit = true) :
    chars.count '.' = 0 := by
  rw [List.count_eq_zero]
  intro member
  exact absurd (digits '.' member) (by decide)

namespace Piece

open LineScript.Text

theorem runLength_digits {digits : List Char} (digital : IsDigits digits) (whole : Bool) :
    runLength whole digits = digits.length := by
  have continues : ∀ c ∈ digits, continuesIdentifier c = true := fun c member =>
    continuesIdentifier_of_isDigit (digital.2 c member)
  have length := runLength_append_of_continues continues whole []
  rwa [List.append_nil] at length

theorem runLength_unsigned {chars : List Char} (unsigned : IsUnsigned chars) :
    runLength true chars = chars.length := by
  cases unsigned with
  | whole digital => exact runLength_digits digital true
  | @fraction whole fraction digital behind =>
      have continues : ∀ c ∈ whole, continuesIdentifier c = true := fun c member =>
        continuesIdentifier_of_isDigit (digital.2 c member)
      have digits : whole.all Char.isDigit = true := List.all_eq_true.mpr digital.2
      have point : runLength true ('.' :: fraction) = fraction.length + 1 := by
        simp [runLength, behind.beginsWithDigit, runLength_digits behind]
      rw [runLength_append_of_continues continues, digits, Bool.and_true, point]
      simp

theorem exists_digit_of_unsigned {chars : List Char} (unsigned : IsUnsigned chars) :
    ∃ c rest, chars = c :: rest ∧ c.isDigit = true := by
  cases unsigned with
  | whole digital =>
      obtain ⟨c, rest, rfl⟩ := List.exists_cons_of_ne_nil digital.1
      exact ⟨c, rest, rfl, digital.2 c List.mem_cons_self⟩
  | fraction digital behind =>
      obtain ⟨c, rest, rfl⟩ := List.exists_cons_of_ne_nil digital.1
      exact ⟨c, _, rfl, digital.2 c List.mem_cons_self⟩

theorem scanFrom_unsigned (mode : Mode) (position : Nat) {chars : List Char}
    (unsigned : IsUnsigned chars) :
    scanFrom mode position [] chars =
      [⟨.text (String.ofList chars), ⟨position, position + chars.length⟩⟩] := by
  have length := runLength_unsigned unsigned
  obtain ⟨c, rest, rfl, digit⟩ := exists_digit_of_unsigned unsigned
  have continues := continuesIdentifier_of_isDigit digit
  -- The first digit counts in the run, whose remaining length is that of the rest.
  have remaining : runLength true rest = rest.length := by
    have split := runLength_append_of_continues
      (show ∀ d ∈ [c], continuesIdentifier d = true by simpa using continues) true rest
    simp only [List.singleton_append, length, List.length_cons, List.all_cons, digit, List.all_nil,
      Bool.and_true, List.length_nil] at split
    omega
  have cut : nextCut mode [] c (rest ++ []) = ⟨.run, 0, rest.length + 1⟩ := by
    rw [List.append_nil, nextCut_of_continuesIdentifier mode [] continues, digit, remaining]
  have scanned := scanFrom_append_of_nextCut (not_isBlank_of_continuesIdentifier continues)
    (by simp) cut position
  simpa [scanFrom] using scanned

theorem scanFrom_negative (mode : Mode) (position : Nat) {chars : List Char}
    (unsigned : IsUnsigned chars) :
    scanFrom mode position [] ('-' :: chars) =
      [⟨.text (String.ofList ('-' :: chars)), ⟨position, position + (chars.length + 1)⟩⟩] := by
  obtain ⟨c, rest, same, digit⟩ := exists_digit_of_unsigned unsigned
  have begins : beginsWithDigit chars = true := by rw [same]; exact digit
  have cut : nextCut mode [] '-' (chars ++ []) = ⟨.run, 0, chars.length + 1⟩ := by
    rw [List.append_nil, nextCut_negative mode begins, runLength_unsigned unsigned]
  have scanned := scanFrom_append_of_nextCut (by decide) (by simp) cut position
  simpa [scanFrom] using scanned

end Piece

/-! ## Kinds of words -/

namespace Token

open LineScript.Piece

/-- A text with a character that no entry of a table has is not in the table. -/
theorem lookup_eq_none_of_mem {table : List (String × TokenKind)} {test : Char → Bool}
    (foreign : ∀ entry ∈ table, entry.1.toList.any test = false) {text : String} {c : Char}
    (member : c ∈ text.toList) (passes : test c = true) : table.lookup text = none := by
  rw [List.lookup_eq_none_iff]
  intro entry inside
  have different : text ≠ entry.1 := by
    rintro rfl
    have clash := List.any_eq_true.mpr ⟨c, member, passes⟩
    rw [foreign entry inside] at clash
    contradiction
  simpa using different

theorem lookup_keywords_of_mem {text : String} {c : Char} (member : c ∈ text.toList)
    (other : c.isAlpha = false) : keywords.lookup text = none := by
  have letters : ∀ entry ∈ keywords, entry.1.toList.any (fun c => !c.isAlpha) = false := by decide
  exact lookup_eq_none_of_mem letters member (by simp [other])

theorem lookup_signs_of_mem {text : String} {c : Char} (member : c ∈ text.toList)
    (other : continuesIdentifier c = true ∨ isQuote c = true) :
    (operatorKinds ++ symbolKinds).lookup text = none := by
  have signs : ∀ entry ∈ operatorKinds ++ symbolKinds,
      entry.1.toList.any (fun c => continuesIdentifier c || isQuote c) = false := by decide
  exact lookup_eq_none_of_mem signs member (by simpa using other)

theorem numeralKind?_of_head {c : Char} (digit : c.isDigit = false) (minus : c ≠ '-')
    (rest : List Char) : numeralKind? (c :: rest) = none := by
  simp [numeralKind?, minus, beginsWithDigit, digit]

theorem kindOfText_name {name : String} (named : isIdentifier name.toList = true)
    (free : keywords.lookup name = none) : kindOfText name = (.identifier, .void) := by
  cases spelled : name.toList with
  | nil =>
      rw [spelled] at named
      contradiction
  | cons c rest =>
      rw [spelled] at named
      have begins : beginsIdentifier c = true := (Bool.and_eq_true_iff.mp named).1
      have continues := continuesIdentifier_of_begins begins
      have member : c ∈ name.toList := by simp [spelled]
      have minus : c ≠ '-' := by
        rintro rfl
        contradiction
      have quoted : isQuoted (c :: rest) = false := by
        have mark : c ∉ quoteMarks := notMem_of_continuesIdentifier continues (by decide)
        simp [isQuoted, isQuote, mark]
      simp only [kindOfText, free, lookup_signs_of_mem member (.inl continues), spelled,
        numeralKind?_of_head (not_isDigit_of_begins begins) minus, quoted, named, if_true,
        Bool.false_eq_true, if_false]

theorem kindOfText_quoted {mark : Char} (quote : isQuote mark = true) (chars : List Char) :
    kindOfText (String.ofList (mark :: (chars ++ [mark]))) = (.string, .str) := by
  obtain ⟨alpha, digit, minus⟩ : mark.isAlpha = false ∧ mark.isDigit = false ∧ mark ≠ '-' := by
    rcases eq_of_isQuote quote with rfl | rfl <;> decide
  have member : mark ∈ (String.ofList (mark :: (chars ++ [mark]))).toList := by simp
  have quoted : isQuoted (mark :: (chars ++ [mark])) = true := by
    rw [isQuoted, quote, List.getLast?_concat]
    simp
  simp only [kindOfText, lookup_keywords_of_mem member alpha,
    lookup_signs_of_mem member (.inr quote), String.toList_ofList,
    numeralKind?_of_head digit minus, quoted, if_true]

theorem kindOfText_numeral {text : String} {kind : TokenKind} {c : Char} (member : c ∈ text.toList)
    (digit : c.isDigit = true) (found : numeralKind? text.toList = some kind) :
    kindOfText text = (kind, if kind = .float then .float else .int) := by
  have word := lookup_keywords_of_mem member (not_isAlpha_of_isDigit digit)
  have sign := lookup_signs_of_mem member (.inl (continuesIdentifier_of_isDigit digit))
  simp only [kindOfText, word, sign, found]

theorem head?_ne_minus {chars : List Char} (begins : beginsWithDigit chars = true) :
    chars.head? ≠ some '-' := by
  intro minus
  cases chars with
  | nil => contradiction
  | cons c rest =>
      obtain rfl : c = '-' := Option.some.inj minus
      contradiction

theorem numeralKind?_digits {digits : List Char} (digital : IsDigits digits) :
    numeralKind? digits = some .number := by
  have every : digits.all (fun c => c.isDigit || c == '.') = true := by
    rw [List.all_eq_true]
    intro c member
    simp [digital.2 c member]
  simp [numeralKind?, head?_ne_minus digital.beginsWithDigit, digital.beginsWithDigit, every,
    count_point_of_digits digital.2]

theorem numeralKind?_fraction {whole fraction : List Char} (digital : IsDigits whole)
    (behind : ∀ c ∈ fraction, c.isDigit = true) :
    numeralKind? (whole ++ '.' :: fraction) = some .float := by
  have begins := digital.beginsWithDigit_append ('.' :: fraction)
  have every : (whole ++ '.' :: fraction).all (fun c => c.isDigit || c == '.') = true := by
    rw [List.all_eq_true]
    intro c member
    rcases List.mem_append.mp member with member | member
    · simp [digital.2 c member]
    · rcases List.mem_cons.mp member with rfl | member
      · simp
      · simp [behind c member]
  have points : (whole ++ '.' :: fraction).count '.' = 1 := by
    simp [count_point_of_digits digital.2, count_point_of_digits behind]
  simp only [numeralKind?, head?_ne_minus begins, if_false, begins, every, points, Bool.and_self,
    if_true]

theorem numeralKind?_negative {chars : List Char} (begins : beginsWithDigit chars = true) :
    numeralKind? ('-' :: chars) = numeralKind? chars := by
  simp [numeralKind?, head?_ne_minus begins]

end Token

end LineScript
