import LineScript.Proofs.Legibility
import Mathlib.Computability.Language

/-!
# Classes of texts

Seven checks decide what a text is.  Each of them passes a regular language, and no text passes
two of them but a keyword, which is a name as well.  So the order of the checks matters for
keywords alone, and the kind of a text tells exactly which language it belongs to.
-/

namespace LineScript.Token

open LineScript.Piece
open scoped Computability

/-! ## Languages -/

/-- Whether a character lies in one of some inclusive ranges. -/
def Within (ranges : List (Char × Char)) (c : Char) : Prop :=
  ∃ range ∈ ranges, range.1 ≤ c ∧ c ≤ range.2

/-- The texts of one character from some ranges. -/
def oneOf (ranges : List (Char × Char)) : Language Char :=
  {word | ∃ c, word = [c] ∧ Within ranges c}

/-- Names, `[A-Za-z_$][A-Za-z0-9_$]*`. -/
def names : Language Char :=
  oneOf [('A', 'Z'), ('a', 'z'), ('_', '_'), ('$', '$')] *
    (oneOf [('A', 'Z'), ('a', 'z'), ('0', '9'), ('_', '_'), ('$', '$')])∗

/-- References, `\?` and a name. -/
def references : Language Char := oneOf [('?', '?')] * names

/-- Digits, `[0-9]+`. -/
def digits : Language Char := oneOf [('0', '9')] * (oneOf [('0', '9')])∗

/-- Digits with a point behind them or among them, `[0-9]+\.[0-9]*`. -/
def pointedDigits : Language Char :=
  digits * (oneOf [('.', '.')] * (oneOf [('0', '9')])∗)

/-- A sign or none, `-?`. -/
def sign : Language Char := 1 + oneOf [('-', '-')]

/-- Texts of at least two characters that begin and end with the same quote mark. -/
def quotations : Language Char :=
  {word | 2 ≤ word.length ∧ ∃ mark, (mark = '"' ∨ mark = '\'') ∧
    word.head? = some mark ∧ word.getLast? = some mark}

/-- The texts that a table lists. -/
def listed (table : List (String × TokenKind)) : Language Char :=
  {word | String.ofList word ∈ table.map (·.1)}

/-! ## Characters of the languages -/

theorem within_iff_toNat {ranges : List (Char × Char)} {c : Char} :
    Within ranges c ↔ ∃ range ∈ ranges, range.1.toNat ≤ c.toNat ∧ c.toNat ≤ range.2.toNat :=
  Iff.rfl

theorem eq_iff_toNat {c d : Char} : c = d ↔ d.toNat ≤ c.toNat ∧ c.toNat ≤ d.toNat := by
  rw [← Char.toNat_inj]
  omega

theorem within_single {c d : Char} : Within [(d, d)] c ↔ c = d := by
  simp [within_iff_toNat, eq_iff_toNat]

theorem isDigit_iff_within {c : Char} : c.isDigit = true ↔ Within [('0', '9')] c := by
  simp [within_iff_toNat, Char.isDigit_iff_toNat]

theorem beginsIdentifier_iff_within {c : Char} :
    beginsIdentifier c = true ↔ Within [('A', 'Z'), ('a', 'z'), ('_', '_'), ('$', '$')] c := by
  simp [within_iff_toNat, beginsIdentifier, isAlpha_iff_toNat, eq_iff_toNat, or_assoc]

theorem continuesIdentifier_iff_within {c : Char} :
    continuesIdentifier c = true ↔
      Within [('A', 'Z'), ('a', 'z'), ('0', '9'), ('_', '_'), ('$', '$')] c := by
  simp [within_iff_toNat, continuesIdentifier, Char.isAlphanum, isAlpha_iff_toNat,
    Char.isDigit_iff_toNat, eq_iff_toNat, or_assoc]

theorem mem_oneOf_mul {ranges : List (Char × Char)} {rest : Language Char} {word : List Char} :
    word ∈ oneOf ranges * rest ↔
      ∃ c behind, word = c :: behind ∧ Within ranges c ∧ behind ∈ rest := by
  rw [Language.mem_mul]
  constructor
  · rintro ⟨_, ⟨c, rfl, within⟩, behind, member, rfl⟩
    exact ⟨c, behind, rfl, within, member⟩
  · rintro ⟨c, behind, rfl, within, member⟩
    exact ⟨[c], ⟨c, rfl, within⟩, behind, member, rfl⟩

theorem mem_kstar_oneOf {ranges : List (Char × Char)} {word : List Char} :
    word ∈ (oneOf ranges)∗ ↔ ∀ c ∈ word, Within ranges c := by
  rw [Language.mem_kstar]
  constructor
  · rintro ⟨parts, rfl, each⟩ c member
    obtain ⟨part, inside, member⟩ := List.mem_flatten.mp member
    obtain ⟨d, rfl, within⟩ := each part inside
    rwa [List.mem_singleton.mp member]
  · intro each
    refine ⟨word.map fun c => [c], by rw [← List.flatMap_def, List.flatMap_singleton'], ?_⟩
    intro part member
    obtain ⟨c, inside, rfl⟩ := List.mem_map.mp member
    exact ⟨c, rfl, each c inside⟩

theorem mem_sign_mul {rest : Language Char} {word : List Char} :
    word ∈ sign * rest ↔ ∃ unsigned ∈ rest, word = unsigned ∨ word = '-' :: unsigned := by
  rw [sign, add_mul, one_mul, Language.mem_add, mem_oneOf_mul]
  constructor
  · rintro (member | ⟨c, behind, rfl, minus, member⟩)
    · exact ⟨word, member, .inl rfl⟩
    · exact ⟨behind, member, .inr (by rw [within_single.mp minus])⟩
  · rintro ⟨unsigned, member, rfl | rfl⟩
    · exact .inl member
    · exact .inr ⟨'-', unsigned, rfl, within_single.mpr rfl, member⟩

theorem isDigits_iff_mem {chars : List Char} : IsDigits chars ↔ chars ∈ digits := by
  rw [digits, mem_oneOf_mul]
  cases chars with
  | nil => simp [IsDigits]
  | cons c rest => simp [IsDigits, mem_kstar_oneOf, isDigit_iff_within]

theorem mem_pointedDigits {chars : List Char} :
    chars ∈ pointedDigits ↔ ∃ whole fraction, IsDigits whole ∧
      (∀ c ∈ fraction, c.isDigit = true) ∧ chars = whole ++ '.' :: fraction := by
  rw [pointedDigits, Language.mem_mul]
  constructor
  · rintro ⟨whole, digital, behind, member, rfl⟩
    obtain ⟨c, fraction, rfl, point, behind⟩ := mem_oneOf_mul.mp member
    obtain rfl := within_single.mp point
    refine ⟨whole, fraction, isDigits_iff_mem.mpr digital, ?_, rfl⟩
    simpa only [isDigit_iff_within] using mem_kstar_oneOf.mp behind
  · rintro ⟨whole, fraction, digital, behind, rfl⟩
    have point : '.' :: fraction ∈ oneOf [('.', '.')] * (oneOf [('0', '9')])∗ := by
      refine mem_oneOf_mul.mpr ⟨_, _, rfl, within_single.mpr rfl, mem_kstar_oneOf.mpr ?_⟩
      simpa only [isDigit_iff_within] using behind
    exact ⟨whole, isDigits_iff_mem.mp digital, _, point, rfl⟩

/-! ## Classes that are languages -/

theorem isIdentifier_iff_mem {chars : List Char} : isIdentifier chars = true ↔ chars ∈ names := by
  rw [names, mem_oneOf_mul]
  cases chars with
  | nil => simp [isIdentifier]
  | cons c rest =>
      simp [isIdentifier, beginsIdentifier_iff_within, mem_kstar_oneOf,
        continuesIdentifier_iff_within]

theorem isSome_referenceName?_iff_mem {chars : List Char} :
    (referenceName? chars).isSome = true ↔ chars ∈ references := by
  rw [references, mem_oneOf_mul]
  cases chars with
  | nil => simp [referenceName?]
  | cons c rest => simp [referenceName?, within_single, isIdentifier_iff_mem]

theorem isQuote_iff {c : Char} : isQuote c = true ↔ c = '"' ∨ c = '\'' := by
  simp [isQuote, quoteMarks]

theorem isQuoted_iff_mem {chars : List Char} : isQuoted chars = true ↔ chars ∈ quotations := by
  change _ ↔ 2 ≤ chars.length ∧ ∃ mark, (mark = '"' ∨ mark = '\'') ∧
    chars.head? = some mark ∧ chars.getLast? = some mark
  cases chars with
  | nil => simp [isQuoted]
  | cons first rest =>
      cases rest with
      | nil => simp [isQuoted]
      | cons c rest =>
          rw [isQuoted, Bool.and_eq_true, isQuote_iff, beq_iff_eq, List.getLast?_cons_cons]
          constructor
          · rintro ⟨quote, last⟩
            exact ⟨by simp, first, quote, rfl, last⟩
          · rintro ⟨-, mark, quote, same, last⟩
            obtain rfl := Option.some.inj same
            exact ⟨quote, last⟩

theorem isSome_lookup_iff_mem {table : List (String × TokenKind)} {text : String} :
    (table.lookup text).isSome = true ↔ text.toList ∈ listed table := by
  change _ ↔ String.ofList text.toList ∈ table.map (·.1)
  rw [String.ofList_toList, List.lookup_isSome_iff, List.mem_map]
  simp only [beq_iff_eq, eq_comm (a := text)]

theorem isNumeral_iff_mem {chars : List Char} {kind : TokenKind} :
    IsNumeral chars kind ↔
      chars ∈ digits ∧ kind = .number ∨ chars ∈ pointedDigits ∧ kind = .float := by
  constructor
  · rintro (digital | ⟨digital, behind⟩)
    · exact .inl ⟨isDigits_iff_mem.mp digital, rfl⟩
    · exact .inr ⟨mem_pointedDigits.mpr ⟨_, _, digital, behind, rfl⟩, rfl⟩
  · rintro (⟨member, rfl⟩ | ⟨member, rfl⟩)
    · exact .whole (isDigits_iff_mem.mpr member)
    · obtain ⟨whole, fraction, digital, behind, rfl⟩ := mem_pointedDigits.mp member
      exact .fraction digital behind

theorem IsNumeral.numeralKind? {chars : List Char} {kind : TokenKind}
    (numeral : IsNumeral chars kind) : numeralKind? chars = some kind := by
  cases numeral with
  | whole digital => exact numeralKind?_digits digital
  | fraction digital behind => exact numeralKind?_fraction digital behind

theorem numeralKind?_eq_some_iff {chars : List Char} {kind : TokenKind} :
    numeralKind? chars = some kind ↔
      ∃ unsigned, (chars = unsigned ∨ chars = '-' :: unsigned) ∧ IsNumeral unsigned kind := by
  constructor
  · exact exists_unsigned_of_numeralKind?
  · rintro ⟨unsigned, rfl | rfl, numeral⟩
    · exact numeral.numeralKind?
    · rw [numeralKind?_negative numeral.beginsWithDigit, numeral.numeralKind?]

theorem numeralKind?_eq_number_iff_mem {chars : List Char} :
    numeralKind? chars = some .number ↔ chars ∈ sign * digits := by
  simp [numeralKind?_eq_some_iff, mem_sign_mul, isNumeral_iff_mem, and_comm]

theorem numeralKind?_eq_float_iff_mem {chars : List Char} :
    numeralKind? chars = some .float ↔ chars ∈ sign * pointedDigits := by
  simp [numeralKind?_eq_some_iff, mem_sign_mul, isNumeral_iff_mem, and_comm]

theorem isSome_numeralKind?_iff_mem {chars : List Char} :
    (numeralKind? chars).isSome = true ↔ chars ∈ sign * digits + sign * pointedDigits := by
  rw [Language.mem_add, ← numeralKind?_eq_number_iff_mem, ← numeralKind?_eq_float_iff_mem,
    Option.isSome_iff_exists]
  constructor
  · rintro ⟨kind, found⟩
    rcases numeralKind?_eq_some found with rfl | rfl
    · exact .inl found
    · exact .inr found
  · rintro (found | found)
    · exact ⟨_, found⟩
    · exact ⟨_, found⟩

/-! ## Checks -/

/-- The conditions that the kind of a text depends on. -/
inductive Check where
  | reference
  | keyword
  | operator
  | symbol
  | numeral
  | quoted
  | name
  deriving DecidableEq

namespace Check

/-- The checks in the order in which they are made. -/
def all : List Check := [.reference, .keyword, .operator, .symbol, .numeral, .quoted, .name]

/-- What a text that passes a check is taken for: its kind and the type it implies. -/
def verdict? (text : String) : Check → Option (TokenKind × TypeName)
  | .reference => (referenceName? text.toList).map fun _ => (.reference, .any)
  | .keyword => (keywords.lookup text).map fun kind =>
      (kind, if kind = .trueWord ∨ kind = .falseWord then .bool else .void)
  | .operator => (operatorKinds.lookup text).map fun kind => (kind, .void)
  | .symbol => (symbolKinds.lookup text).map fun kind => (kind, .void)
  | .numeral => (numeralKind? text.toList).map fun kind =>
      (kind, if kind = .float then .float else .int)
  | .quoted => if isQuoted text.toList then some (.string, .str) else none
  | .name => if isIdentifier text.toList then some (.identifier, .void) else none

def Passes (text : String) (check : Check) : Prop := (check.verdict? text).isSome = true

/-- What a text is taken for if checks are made in some order: the first one passed decides. -/
def verdict (order : List Check) (text : String) : TokenKind × TypeName :=
  (order.findSome? (verdict? text)).getD (.unknown, .void)

/-- The language of the texts that pass a check. -/
def language : Check → Language Char
  | .reference => references
  | .keyword => listed keywords
  | .operator => listed operatorKinds
  | .symbol => listed symbolKinds
  | .numeral => sign * digits + sign * pointedDigits
  | .quoted => quotations
  | .name => names

variable {text : String} {check : Check}

theorem passes_iff_mem : check.Passes text ↔ text.toList ∈ check.language := by
  unfold Passes
  cases check with
  | reference => rw [verdict?, Option.isSome_map, isSome_referenceName?_iff_mem, language]
  | keyword => rw [verdict?, Option.isSome_map, isSome_lookup_iff_mem, language]
  | operator => rw [verdict?, Option.isSome_map, isSome_lookup_iff_mem, language]
  | symbol => rw [verdict?, Option.isSome_map, isSome_lookup_iff_mem, language]
  | numeral => rw [verdict?, Option.isSome_map, isSome_numeralKind?_iff_mem, language]
  | quoted => rw [verdict?, Option.isSome_ite, isQuoted_iff_mem, language]
  | name => rw [verdict?, Option.isSome_ite, isIdentifier_iff_mem, language]

theorem verdict?_eq_none_iff : check.verdict? text = none ↔ ¬ check.Passes text := by
  simp [Passes]

/-! ## No text passes two checks -/

/-- The check that the first characters of a text leave; a keyword begins like a name. -/
def likely? : List Char → Option Check
  | [] => none
  | c :: rest =>
      if c = '?' then some .reference
      else if isQuote c then some .quoted
      else if beginsIdentifier c then some .name
      else if c.isDigit || c == '-' && beginsWithDigit rest then some .numeral
      else if (symbolKinds.lookup (String.singleton c)).isSome then some .symbol
      else some .operator

def family : Check → Check
  | .keyword => .name
  | check => check

theorem likely?_of_beginsIdentifier {c : Char} (begins : beginsIdentifier c = true)
    (rest : List Char) : likely? (c :: rest) = some .name := by
  have continues := continuesIdentifier_of_begins begins
  have mark : c ∉ quoteMarks := notMem_of_continuesIdentifier continues (by decide)
  have question : c ≠ '?' := by
    rintro rfl
    contradiction
  simp [likely?, question, isQuote, mark, begins]

theorem likely?_of_isDigit {c : Char} (digit : c.isDigit = true) (rest : List Char) :
    likely? (c :: rest) = some .numeral := by
  have mark : c ∉ quoteMarks :=
    notMem_of_continuesIdentifier (continuesIdentifier_of_isDigit digit) (by decide)
  have question : c ≠ '?' := by
    rintro rfl
    contradiction
  have begins : beginsIdentifier c = false := by
    rw [Bool.eq_false_iff]
    intro begins
    rw [not_isDigit_of_begins begins] at digit
    contradiction
  simp [likely?, question, isQuote, mark, begins, digit]

theorem likely?_of_isNumeral {chars unsigned : List Char} {kind : TokenKind}
    (signed : chars = unsigned ∨ chars = '-' :: unsigned) (numeral : IsNumeral unsigned kind) :
    likely? chars = some .numeral := by
  have digit := numeral.beginsWithDigit
  rcases signed with rfl | rfl
  · cases chars with
    | nil => contradiction
    | cons c rest => exact likely?_of_isDigit digit rest
  · have minus : isQuote '-' = false ∧ beginsIdentifier '-' = false := by decide
    simp [likely?, minus, digit]

theorem likely?_of_isQuoted {chars : List Char} (quoted : isQuoted chars = true) :
    likely? chars = some .quoted := by
  cases chars with
  | nil => contradiction
  | cons mark rest =>
      have quote : isQuote mark = true := (Bool.and_eq_true_iff.mp quoted).1
      have question : mark ≠ '?' := by
        rintro rfl
        contradiction
      simp [likely?, question, quote]

theorem likely?_of_isIdentifier {chars : List Char} (named : isIdentifier chars = true) :
    likely? chars = some .name := by
  cases chars with
  | nil => contradiction
  | cons c rest =>
      rw [isIdentifier, Bool.and_eq_true] at named
      exact likely?_of_beginsIdentifier named.1 rest

theorem likely?_of_listed {table : List (String × TokenKind)} {family : Check}
    (rows : ∀ row ∈ table, likely? row.1.toList = some family)
    (found : (table.lookup text).isSome = true) : likely? text.toList = some family := by
  obtain ⟨kind, found⟩ := Option.isSome_iff_exists.mp found
  exact rows _ (mem_of_lookup found)

/-- The first characters of a text tell which check it can pass. -/
theorem Passes.likely? (passes : check.Passes text) :
    likely? text.toList = some check.family := by
  cases check with
  | reference =>
      rw [Passes, verdict?, Option.isSome_map] at passes
      obtain ⟨name, found⟩ := Option.isSome_iff_exists.mp passes
      rw [eq_of_referenceName? found]
      rfl
  | keyword =>
      rw [Passes, verdict?, Option.isSome_map] at passes
      exact likely?_of_listed (by decide) passes
  | operator =>
      rw [Passes, verdict?, Option.isSome_map] at passes
      exact likely?_of_listed (by decide) passes
  | symbol =>
      rw [Passes, verdict?, Option.isSome_map] at passes
      exact likely?_of_listed (by decide) passes
  | numeral =>
      rw [Passes, verdict?, Option.isSome_map] at passes
      obtain ⟨kind, found⟩ := Option.isSome_iff_exists.mp passes
      obtain ⟨unsigned, signed, numeral⟩ := exists_unsigned_of_numeralKind? found
      exact likely?_of_isNumeral signed numeral
  | quoted =>
      rw [Passes, verdict?, Option.isSome_ite] at passes
      exact likely?_of_isQuoted passes
  | name =>
      rw [Passes, verdict?, Option.isSome_ite] at passes
      exact likely?_of_isIdentifier passes

theorem eq_or_keyword_of_family {first second : Check} (same : first.family = second.family) :
    first = second ∨ first = .keyword ∧ second = .name ∨ first = .name ∧ second = .keyword := by
  cases first <;> cases second <;> simp_all [family]

theorem exclusive {first second : Check} (passes : first.Passes text)
    (alsoPasses : second.Passes text) :
    first = second ∨ first = .keyword ∧ second = .name ∨ first = .name ∧ second = .keyword :=
  eq_or_keyword_of_family (Option.some.inj (passes.likely?.symm.trans alsoPasses.likely?))

theorem name_of_keyword (passes : Check.keyword.Passes text) : Check.name.Passes text := by
  have rows : ∀ row ∈ keywords, isIdentifier row.1.toList = true := by decide
  rw [Passes, verdict?, Option.isSome_map] at passes
  obtain ⟨kind, found⟩ := Option.isSome_iff_exists.mp passes
  rw [Passes, verdict?, Option.isSome_ite]
  exact rows _ (mem_of_lookup found)

/-! ## The order of the checks -/

/-- The first check passed decides. -/
theorem verdict_of_first {order : List Check} {result : TokenKind × TypeName}
    (once : order.Nodup) (member : check ∈ order) (found : check.verdict? text = some result)
    (first : ∀ other : Check, other.Passes text → other ≠ check → [check, other].Sublist order) :
    verdict order text = result := by
  suffices order.findSome? (verdict? text) = some result by rw [verdict, this]; rfl
  induction order with
  | nil => contradiction
  | cons head tail ih =>
      obtain ⟨fresh, once⟩ := List.nodup_cons.mp once
      rw [List.findSome?_cons]
      by_cases same : head = check
      · rw [same, found]
      · -- A check before the first one passed cannot be passed too: it would have to come later.
        have later (other : Check) (passes : other.Passes text) (different : other ≠ check) :
            [check, other].Sublist tail := by
          rcases List.cons_sublist_cons'.mp (first other passes different) with below | ⟨rfl, -⟩
          · exact below
          · exact absurd rfl same
        have fails : head.verdict? text = none := by
          rw [verdict?_eq_none_iff]
          intro passes
          exact fresh ((later head passes same).subset (by simp))
        rw [fails]
        exact ih once (List.mem_of_ne_of_mem (Ne.symm same) member) later

theorem mem_of_perm_all {order : List Check} (complete : order.Perm all) (check : Check) :
    check ∈ order := by
  rw [complete.mem_iff]
  cases check <;> decide

theorem verdict_of_none {order : List Check} (fails : ∀ check : Check, ¬ check.Passes text) :
    verdict order text = (.unknown, .void) := by
  have nothing : order.findSome? (verdict? text) = none := by
    rw [List.findSome?_eq_none_iff]
    intro check member
    exact verdict?_eq_none_iff.mpr (fails check)
  rw [verdict, nothing]
  rfl

theorem verdict_cases (text : String) :
    (∀ check : Check, ¬ check.Passes text) ∧ verdict all text = (.unknown, .void) ∨
      ∃ check : Check, check.verdict? text = some (verdict all text) := by
  cases found : all.findSome? (verdict? text) with
  | none =>
      refine .inl ⟨fun check => ?_, by rw [verdict, found]; rfl⟩
      have fails := List.findSome?_eq_none_iff.mp found check (mem_of_perm_all (.refl _) check)
      exact verdict?_eq_none_iff.mp fails
  | some result =>
      obtain ⟨check, -, passed⟩ := List.exists_of_findSome?_eq_some found
      exact .inr ⟨check, by rw [passed, verdict, found]; rfl⟩

section Order

variable {order : List Check} (complete : order.Perm all)

include complete

/-- Whatever the order, a check that is passed decides, unless it is the check for names and
the text is a keyword. -/
theorem verdict_of_passes {result : TokenKind × TypeName}
    (found : check.verdict? text = some result)
    (settled : Check.keyword.Passes text → check = .keyword ∧ [.keyword, .name].Sublist order) :
    verdict order text = result := by
  have passes : check.Passes text := by rw [Passes, found]; rfl
  refine verdict_of_first (complete.nodup_iff.mpr (by decide)) (mem_of_perm_all complete check)
    found fun other alsoPasses different => ?_
  rcases exclusive passes alsoPasses with rfl | ⟨rfl, rfl⟩ | ⟨rfl, rfl⟩
  · exact absurd rfl different
  · exact (settled passes).2
  · exact absurd (settled alsoPasses).1 (by decide)

theorem verdict_of_name_first (keyword : Check.keyword.Passes text)
    (first : [.name, .keyword].Sublist order) : verdict order text = (.identifier, .void) := by
  have named : isIdentifier text.toList = true := by
    simpa [Passes, verdict?] using name_of_keyword keyword
  have found : Check.name.verdict? text = some (.identifier, .void) := if_pos named
  refine verdict_of_first (complete.nodup_iff.mpr (by decide)) (mem_of_perm_all complete _) found
    fun other passes different => ?_
  rcases exclusive (name_of_keyword keyword) passes with rfl | ⟨impossible, -⟩ | ⟨-, rfl⟩
  · exact absurd rfl different
  · contradiction
  · exact first

theorem verdict_eq_of_perm
    (keywordFirst : Check.keyword.Passes text → [.keyword, .name].Sublist order) :
    verdict order text = verdict all text := by
  by_cases keyword : Check.keyword.Passes text
  · obtain ⟨result, found⟩ := Option.isSome_iff_exists.mp keyword
    rw [verdict_of_passes complete found fun passes => ⟨rfl, keywordFirst passes⟩,
      verdict_of_passes (.refl _) found fun _ => ⟨rfl, by decide⟩]
  · rcases verdict_cases text with ⟨fails, -⟩ | ⟨check, found⟩
    · rw [verdict_of_none fails, verdict_of_none fails]
    · exact verdict_of_passes complete found fun passes => absurd passes keyword

end Order

end Check

/-! ## Tokens of texts -/

/-- The type that a kind implies: that of a literal, any type for a reference, else none. -/
def impliedType : TokenKind → TypeName
  | .reference => .any
  | .number => .int
  | .float => .float
  | .string => .str
  | .trueWord | .falseWord => .bool
  | _ => .void

/-- The kinds that texts have by their form and not by a table. -/
def formedKinds : List TokenKind :=
  [.reference, .number, .float, .string, .identifier, .unknown]

theorem notMem_formedKinds {text : String} {kind : TokenKind}
    (member : (text, kind) ∈ keywords ++ (operatorKinds ++ symbolKinds)) :
    kind ∉ formedKinds := by
  have rows : ∀ row ∈ keywords ++ (operatorKinds ++ symbolKinds), row.2 ∉ formedKinds := by decide
  exact rows _ member

namespace Check

theorem implied_of_listed {table : List (String × TokenKind)} (typeOf : TokenKind → TypeName)
    {text : String} {kind : TokenKind} {type : TypeName}
    (rows : ∀ row ∈ table, row.2 ≠ .unknown ∧ typeOf row.2 = impliedType row.2)
    (found : ((table.lookup text).map fun kind => (kind, typeOf kind)) = some (kind, type)) :
    kind ≠ .unknown ∧ type = impliedType kind := by
  obtain ⟨kind, listed, result⟩ := Option.map_eq_some_iff.mp found
  cases result
  exact rows _ (mem_of_lookup listed)

theorem implied_of_verdict? {text : String} {check : Check} {kind : TokenKind} {type : TypeName}
    (found : check.verdict? text = some (kind, type)) :
    kind ≠ .unknown ∧ type = impliedType kind := by
  cases check with
  | reference =>
      obtain ⟨name, -, result⟩ := Option.map_eq_some_iff.mp found
      cases result
      exact ⟨by decide, rfl⟩
  | keyword => exact implied_of_listed _ (by decide) found
  | operator => exact implied_of_listed (fun _ => .void) (by decide) found
  | symbol => exact implied_of_listed (fun _ => .void) (by decide) found
  | numeral =>
      obtain ⟨kind, numeral, result⟩ := Option.map_eq_some_iff.mp found
      cases result
      rcases numeralKind?_eq_some numeral with rfl | rfl
      · exact ⟨by decide, rfl⟩
      · exact ⟨by decide, rfl⟩
  | quoted =>
      obtain ⟨-, result⟩ := Option.ite_none_right_eq_some.mp found
      cases result
      exact ⟨by decide, rfl⟩
  | name =>
      obtain ⟨-, result⟩ := Option.ite_none_right_eq_some.mp found
      cases result
      exact ⟨by decide, rfl⟩

end Check

section Tokens

variable (text : String) (position : Nat) (span : Span)

theorem verdict_all :
    let token := classify position ⟨.text text, span⟩
    Check.verdict Check.all text = (token.kind, token.inferred) := by
  simp only [Check.verdict, Check.all, List.findSome?_cons, List.findSome?_nil, Check.verdict?,
    classify, kindOfText, List.lookup_append]
  cases referenceName? text.toList with
  | some name => rfl
  | none =>
  cases keywords.lookup text with
  | some kind => rfl
  | none =>
  cases operatorKinds.lookup text with
  | some kind => rfl
  | none =>
  cases symbolKinds.lookup text with
  | some kind => rfl
  | none =>
  cases numeralKind? text.toList with
  | some kind => rfl
  | none =>
  cases isQuoted text.toList with
  | true => rfl
  | false =>
  cases isIdentifier text.toList with
  | true => rfl
  | false => rfl

/-- A token is a reference by its form, or is classified by its text. -/
theorem reference_or_classified :
    let token := classify position ⟨.text text, span⟩
    token.kind = .reference ∧ text.toList ∈ references ∨
      token.kind ≠ .reference ∧ Classified text token.kind := by
  unfold classify
  simp only
  split
  next name found =>
    exact .inl ⟨rfl, isSome_referenceName?_iff_mem.mp (by rw [found]; rfl)⟩
  next => exact .inr ⟨kindOfText_ne_reference text, classified_kindOfText text⟩

end Tokens

/-! ## Kinds and languages -/

section Kinds

variable {text : String} {position : Nat} {span : Span} {token : Token}
  (made : classify position ⟨.text text, span⟩ = token)

include made

theorem kind_of_verdict? (check : Check) {kind : TokenKind} {type : TypeName}
    (found : check.verdict? text = some (kind, type))
    (settled : Check.keyword.Passes text → check = .keyword) : token.kind = kind := by
  have decided := Check.verdict_of_passes (.refl _) found
    fun passes => ⟨settled passes, by decide⟩
  rw [verdict_all text position span, made] at decided
  exact congrArg Prod.fst decided

theorem kind_of_other (check : Check) {kind : TokenKind} {type : TypeName}
    (found : check.verdict? text = some (kind, type))
    (other : check ≠ .keyword ∧ check ≠ .name) : token.kind = kind := by
  have passes : check.Passes text := by rw [Check.Passes, found]; rfl
  refine kind_of_verdict? made check found fun keyword => ?_
  rcases Check.exclusive passes keyword with same | ⟨same, -⟩ | ⟨same, -⟩
  · exact same
  · exact same
  · exact absurd same other.2

theorem classified_of_kind {kind : TokenKind} (same : token.kind = kind)
    (other : kind ≠ .reference) : Classified text kind := by
  subst made same
  rcases reference_or_classified text position span with ⟨reference, -⟩ | ⟨-, classified⟩
  · exact absurd reference other
  · exact classified

theorem kind_eq_reference_iff : token.kind = .reference ↔ text.toList ∈ references := by
  constructor
  · subst made
    intro kind
    rcases reference_or_classified text position span with ⟨-, member⟩ | ⟨other, -⟩
    · exact member
    · exact absurd kind other
  · intro member
    obtain ⟨name, found⟩ :=
      Option.isSome_iff_exists.mp (isSome_referenceName?_iff_mem.mpr member)
    exact kind_of_other made .reference (by rw [Check.verdict?, found]; rfl) (by decide)

theorem kind_eq_number_iff : token.kind = .number ↔ text.toList ∈ sign * digits := by
  rw [← numeralKind?_eq_number_iff_mem]
  constructor
  · intro kind
    cases classified_of_kind made kind (by decide) with
    | tabled member => exact absurd (by decide) (notMem_formedKinds member)
    | number found => exact found
  · intro found
    exact kind_of_other made .numeral (by rw [Check.verdict?, found]; rfl) (by decide)

theorem kind_eq_float_iff : token.kind = .float ↔ text.toList ∈ sign * pointedDigits := by
  rw [← numeralKind?_eq_float_iff_mem]
  constructor
  · intro kind
    cases classified_of_kind made kind (by decide) with
    | tabled member => exact absurd (by decide) (notMem_formedKinds member)
    | float found => exact found
  · intro found
    exact kind_of_other made .numeral (by rw [Check.verdict?, found]; rfl) (by decide)

theorem kind_eq_string_iff : token.kind = .string ↔ text.toList ∈ quotations := by
  rw [← isQuoted_iff_mem]
  constructor
  · intro kind
    cases classified_of_kind made kind (by decide) with
    | tabled member => exact absurd (by decide) (notMem_formedKinds member)
    | quoted quoted => exact quoted
  · intro quoted
    exact kind_of_other made .quoted (by rw [Check.verdict?, if_pos quoted]) (by decide)

theorem kind_eq_identifier_iff :
    token.kind = .identifier ↔ text.toList ∈ names ∧ text ∉ keywords.map (·.1) := by
  rw [← isIdentifier_iff_mem]
  constructor
  · intro kind
    exact (classified_of_kind made kind (by decide)).named
  · rintro ⟨named, free⟩
    refine kind_of_verdict? made .name (by rw [Check.verdict?, if_pos named]) ?_
    intro keyword
    have inside : String.ofList text.toList ∈ keywords.map (·.1) :=
      Check.passes_iff_mem.mp keyword
    rw [String.ofList_toList] at inside
    exact absurd inside free

theorem kind_eq_tabled_iff {kind : TokenKind} :
    token.kind = kind ∧ kind ∉ formedKinds ↔
      (text, kind) ∈ keywords ++ (operatorKinds ++ symbolKinds) := by
  constructor
  · rintro ⟨same, unformed⟩
    have other : kind ≠ .reference := by
      rintro rfl
      exact absurd (by decide) unformed
    cases classified_of_kind made same other with
    | tabled member => exact member
    | number | float | quoted | name | other => exact absurd (by decide) unformed
  · intro member
    refine ⟨?_, notMem_formedKinds member⟩
    have words : ∀ row ∈ keywords, keywords.lookup row.1 = some row.2 := by decide
    have operators : ∀ row ∈ operatorKinds, operatorKinds.lookup row.1 = some row.2 := by decide
    have symbols : ∀ row ∈ symbolKinds, symbolKinds.lookup row.1 = some row.2 := by decide
    rcases List.mem_append.mp member with member | member
    · exact kind_of_verdict? made .keyword (by rw [Check.verdict?, words _ member]; rfl)
        fun _ => rfl
    rcases List.mem_append.mp member with member | member
    · exact kind_of_other made .operator
        (by rw [Check.verdict?, operators _ member]; rfl) (by decide)
    · exact kind_of_other made .symbol
        (by rw [Check.verdict?, symbols _ member]; rfl) (by decide)

theorem kind_eq_unknown_iff :
    token.kind = .unknown ↔ ∀ check : Check, text.toList ∉ check.language := by
  simp only [← Check.passes_iff_mem]
  have decided := verdict_all text position span
  simp only [made] at decided
  constructor
  · intro kind
    rcases Check.verdict_cases text with ⟨fails, -⟩ | ⟨check, found⟩
    · exact fails
    · rw [decided] at found
      exact absurd kind (Check.implied_of_verdict? found).1
  · intro fails
    rw [Check.verdict_of_none fails] at decided
    exact (congrArg Prod.fst decided).symm

theorem inferred_eq_impliedType : token.inferred = impliedType token.kind := by
  have decided := verdict_all text position span
  simp only [made] at decided
  rcases Check.verdict_cases text with ⟨-, unknown⟩ | ⟨check, found⟩
  · rw [decided] at unknown
    obtain ⟨kind, type⟩ := Prod.mk.inj unknown
    rw [kind, type]
    rfl
  · rw [decided] at found
    exact (Check.implied_of_verdict? found).2

end Kinds

/-! ## The partition -/

/-- At most one check is passed, but a keyword is a name as well.  The order in which the checks
are made matters for keywords alone. -/
structure OneCheck (text : String) (token : Token) : Prop where
  passes : ∀ check : Check, check.Passes text ↔ text.toList ∈ check.language
  exclusive : ∀ first second : Check, first.Passes text → second.Passes text →
    first = second ∨ first = .keyword ∧ second = .name ∨ first = .name ∧ second = .keyword
  name_of_keyword : Check.keyword.Passes text → Check.name.Passes text
  any_order : ∀ order : List Check, order.Perm Check.all →
    (Check.keyword.Passes text → [.keyword, .name].Sublist order) →
      Check.verdict order text = (token.kind, token.inferred)
  name_first : ∀ order : List Check, order.Perm Check.all →
    Check.keyword.Passes text → [.name, .keyword].Sublist order →
      Check.verdict order text = (.identifier, .void)

/-- The kind of a token tells which language its text belongs to, and the type it shows. -/
structure KindTells (text : String) (token : Token) : Prop where
  reference : token.kind = .reference ↔ text.toList ∈ references
  number : token.kind = .number ↔ text.toList ∈ sign * digits
  float : token.kind = .float ↔ text.toList ∈ sign * pointedDigits
  string : token.kind = .string ↔ text.toList ∈ quotations
  identifier : token.kind = .identifier ↔ text.toList ∈ names ∧ text ∉ keywords.map (·.1)
  tabled : ∀ kind, token.kind = kind ∧ kind ∉ formedKinds ↔
    (text, kind) ∈ keywords ++ (operatorKinds ++ symbolKinds)
  unknown : token.kind = .unknown ↔ ∀ check : Check, text.toList ∉ check.language
  inferred : token.inferred = impliedType token.kind

/-- The checks that decide what a text is part all texts among them, keywords and names apart:
the order of the checks only puts keywords before names, and the kind of a text tells the
language that it belongs to. -/
theorem classify_partitions_texts (text : String) (position : Nat) (span : Span) :
    let token := classify position ⟨.text text, span⟩
    OneCheck text token ∧ KindTells text token := by
  intro token
  have made : classify position ⟨.text text, span⟩ = token := rfl
  constructor
  · exact {
      passes := fun _ => Check.passes_iff_mem
      exclusive := fun _ _ => Check.exclusive
      name_of_keyword := Check.name_of_keyword
      any_order := fun _ complete keywordFirst =>
        (Check.verdict_eq_of_perm complete keywordFirst).trans (verdict_all text position span)
      name_first := fun _ complete => Check.verdict_of_name_first complete }
  · exact {
      reference := kind_eq_reference_iff made
      number := kind_eq_number_iff made
      float := kind_eq_float_iff made
      string := kind_eq_string_iff made
      identifier := kind_eq_identifier_iff made
      tabled := fun _ => kind_eq_tabled_iff made
      unknown := kind_eq_unknown_iff made
      inferred := inferred_eq_impliedType made }

example :
    let kindOf (text : String) := (classify 0 ⟨.text text, ⟨0, 0⟩⟩).kind
    ["5.", "-.5", "1.2.3", "?1a", "\"", "set", "sets"].map kindOf =
      [.float, .unknown, .unknown, .unknown, .unknown, .setWord, .identifier] := by decide

end LineScript.Token
