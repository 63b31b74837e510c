import LineScript.Proofs.Seam
import Mathlib.Data.List.Infix

/-!
# Forms of pieces

A piece of text has one of six forms, and its spelling settles which.  A run is the form that
the others leave over: it goes on until a character that has a meaning of its own, where a
sign before the first digit and a point among digits have none.
-/

namespace LineScript.Piece

open LineScript.Text

/-! ## Runs -/

/-- Digits, with a minus sign before them or without. -/
def IsInteger (chars : List Char) : Prop := ∃ v, DenotesInteger chars v

/-- A character as it stands in a run, with the characters of the run before it and behind. -/
inductive RunsOn (before : List Char) (c : Char) (after : List Char) : Prop
  | sign (first : before = []) (minus : c = '-') (begins : beginsWithDigit after = true)
  | point (integer : IsInteger before) (point : c = '.') (begins : beginsWithDigit after = true)
  | ordinary (solid : isBlank c = false) (unquoted : isQuote c = false) (other : c ≠ ';')
      (plain : isSymbol c = false)

structure IsRun (chars : List Char) : Prop where
  nonempty : chars ≠ []
  runs_on : ∀ before c after, chars = before ++ c :: after → RunsOn before c after
  one_point : chars.count '.' ≤ 1
  no_and : ¬ ['&', '&'] <:+: chars
  no_or : ¬ ['|', '|'] <:+: chars

/-- A character does not begin one of the operators that no symbol begins. -/
def Apart (c : Char) (after : List Char) : Prop := after.head? = some c → c ≠ '&' ∧ c ≠ '|'

theorem isDigit_or_minus_of_isInteger {chars : List Char} (integer : IsInteger chars) :
    ∀ c ∈ chars, c.isDigit = true ∨ c = '-' := by
  obtain ⟨v, denotes⟩ := integer
  intro c member
  cases denotes with
  | unsigned digital => exact .inl (digital.2 c member)
  | negative digital =>
      rcases List.mem_cons.mp member with rfl | member
      · exact .inr rfl
      · exact .inl (digital.2 c member)

theorem not_isInteger_nil : ¬ IsInteger [] := by
  rintro ⟨v, denotes⟩
  cases denotes with
  | unsigned digital => exact digital.1 rfl

theorem isInteger_concat_iff {before : List Char} (nonempty : before ≠ []) {c : Char} :
    IsInteger (before ++ [c]) ↔ (IsInteger before ∨ before = ['-']) ∧ c.isDigit = true := by
  constructor
  · rintro ⟨v, denotes⟩
    generalize same : before ++ [c] = chars at denotes
    cases denotes with
    | unsigned digital =>
        subst same
        exact ⟨.inl ⟨_, .unsigned ⟨nonempty, fun d member => digital.2 d (by simp [member])⟩⟩,
          digital.2 c (by simp)⟩
    | @negative digits digital =>
        obtain ⟨first, rest, rfl⟩ := List.exists_cons_of_ne_nil nonempty
        obtain ⟨rfl, rfl⟩ := List.cons.inj same
        refine ⟨?_, digital.2 c (by simp)⟩
        cases rest with
        | nil => exact .inr rfl
        | cons d more =>
            have digits : ∀ e ∈ d :: more, e.isDigit = true := fun e member =>
              digital.2 e (List.mem_append_left _ member)
            exact .inl ⟨_, .negative ⟨List.cons_ne_nil _ _, digits⟩⟩
  · rintro ⟨⟨v, denotes⟩ | rfl, digit⟩
    · have digits : ∀ {digits}, IsDigits digits → IsDigits (digits ++ [c]) := by
        intro digits digital
        refine ⟨by simp, fun d member => ?_⟩
        rcases List.mem_append.mp member with member | member
        · exact digital.2 d member
        · rwa [List.mem_singleton.mp member]
      cases denotes with
      | unsigned digital => exact ⟨_, .unsigned (digits digital)⟩
      | negative digital => exact ⟨_, .negative (digits digital)⟩
    · exact ⟨_, .negative ⟨by simp, by simpa using digit⟩⟩

/-- In a run, nothing before a point is a point. -/
theorem notMem_of_runsOn_point {before after : List Char} (runs_on : RunsOn before '.' after) :
    '.' ∉ before := by
  cases runs_on with
  | sign _ minus => simp at minus
  | point integer =>
      intro member
      simpa using isDigit_or_minus_of_isInteger integer '.' member
  | ordinary _ _ _ plain => simp [isSymbol, symbols] at plain

theorem isRun_of_runsOn {chars : List Char} (nonempty : chars ≠ [])
    (runs_on : ∀ before c after, chars = before ++ c :: after →
      RunsOn before c after ∧ Apart c after) : IsRun chars where
  nonempty := nonempty
  runs_on before c after split := (runs_on before c after split).1
  one_point := by
    by_contra more
    have member : '.' ∈ chars := by
      rw [← List.count_pos_iff]
      omega
    obtain ⟨before, after, rfl⟩ := List.append_of_mem member
    have first := List.count_eq_zero.mpr (notMem_of_runsOn_point (runs_on _ _ _ rfl).1)
    have second : '.' ∈ after := by
      rw [List.count_append, List.count_cons_self] at more
      rw [← List.count_pos_iff]
      omega
    obtain ⟨middle, behind, rfl⟩ := List.append_of_mem second
    have free := notMem_of_runsOn_point (runs_on (before ++ '.' :: middle) '.' behind (by simp)).1
    simp at free
  no_and := by
    rintro ⟨before, after, rfl⟩
    have apart := (runs_on before '&' ('&' :: after) (by simp)).2
    exact (apart rfl).1 rfl
  no_or := by
    rintro ⟨before, after, rfl⟩
    have apart := (runs_on before '|' ('|' :: after) (by simp)).2
    exact (apart rfl).2 rfl

/-! ## How far a run goes -/

/-- What is known of a run that is still read: whether it is an integer so far, where a sign
counts as one, for a digit comes next. -/
structure Tracks (before : List Char) (whole : Bool) (ahead : List Char) : Prop where
  nonempty : before ≠ []
  whole_iff : whole = true ↔ IsInteger before ∨ before = ['-']
  signed : before = ['-'] → beginsWithDigit ahead = true

theorem Tracks.step {before ahead : List Char} {whole : Bool} {c : Char}
    (tracks : Tracks before whole (c :: ahead)) :
    Tracks (before ++ [c]) (whole && c.isDigit) ahead := by
  have longer : before ++ [c] ≠ ['-'] := by
    intro same
    have length := congrArg List.length same
    have positive := List.length_pos_iff.mpr tracks.nonempty
    simp only [List.length_append, List.length_cons, List.length_nil] at length
    omega
  refine ⟨by simp, ?_, fun same => absurd same longer⟩
  rw [Bool.and_eq_true, tracks.whole_iff, ← isInteger_concat_iff tracks.nonempty]
  simp [longer]

theorem beginsWithDigit_take_runLength {chars : List Char} (begins : beginsWithDigit chars = true)
    (whole : Bool) : beginsWithDigit (chars.take (runLength whole chars)) = true := by
  cases chars with
  | nil => contradiction
  | cons d rest =>
      have digit : ∀ c ∈ [d], continuesIdentifier c = true := by
        simpa using continuesIdentifier_of_isDigit begins
      have length := runLength_append_of_continues digit whole rest
      rw [List.singleton_append, List.length_singleton, Nat.add_comm] at length
      rw [length, List.take_succ_cons]
      exact begins

/-- Nothing in a run begins an operator, wherever the run is cut off. -/
theorem apart_of_operator?_eq_none {c : Char} {after : List Char}
    (free : operator? (c :: after) = none) (n : Nat) : Apart c (after.take n) := by
  intro head
  obtain ⟨rest, taken⟩ := List.head?_eq_some_iff.mp head
  obtain ⟨more, rfl⟩ : ∃ more, after = c :: more := by
    refine ⟨rest ++ after.drop n, ?_⟩
    rw [← List.cons_append, ← taken, List.take_append_drop]
  constructor
  · rintro rfl
    simp [operator?, operators, List.isPrefixOf] at free
  · rintro rfl
    simp [operator?, operators, List.isPrefixOf] at free

/-- Every character that a run takes may stand there. -/
theorem runsOn_of_runLength {before chars middle behind : List Char} {whole : Bool} {d : Char}
    (tracks : Tracks before whole chars)
    (split : chars.take (runLength whole chars) = middle ++ d :: behind) :
    RunsOn (before ++ middle) d behind ∧ Apart d behind := by
  fun_induction runLength whole chars generalizing before middle with
  | case1 => simp at split
  | case2 whole c after point ih =>
      simp only [Bool.and_eq_true, beq_iff_eq] at point
      obtain ⟨⟨isWhole, rfl⟩, begins⟩ := point
      rw [List.take_succ_cons] at split
      cases middle with
      | nil =>
          obtain ⟨rfl, rfl⟩ := List.cons.inj split
          have integer : IsInteger before := by
            rcases tracks.whole_iff.mp isWhole with integer | rfl
            · exact integer
            · exact absurd (tracks.signed rfl) (by simp [beginsWithDigit])
          rw [List.append_nil]
          exact ⟨.point integer rfl (beginsWithDigit_take_runLength begins false), by simp [Apart]⟩
      | cons e middle =>
          obtain ⟨rfl, rest⟩ := List.cons.inj split
          have later := ih (by simpa using tracks.step) rest
          rwa [List.append_assoc, List.singleton_append] at later
  | case3 => simp at split
  | case4 whole c after point goesOn ih =>
      rw [List.take_succ_cons] at split
      cases middle with
      | nil =>
          obtain ⟨rfl, rfl⟩ := List.cons.inj split
          simp only [endsRun, Bool.or_eq_true, not_or, Bool.not_eq_true, beq_eq_false_iff_ne,
            Option.isSome_eq_false_iff, Option.isNone_iff_eq_none] at goesOn
          obtain ⟨⟨⟨⟨solid, unquoted⟩, other⟩, plain⟩, free⟩ := goesOn
          exact ⟨.ordinary solid unquoted other plain, apart_of_operator?_eq_none free _⟩
      | cons e middle =>
          obtain ⟨rfl, rest⟩ := List.cons.inj split
          have later := ih tracks.step rest
          rwa [List.append_assoc, List.singleton_append] at later

/-- A run ends before some text: the text begins with a character that ends runs, and not with
a point that an integer takes. -/
def EndsBefore (run ahead : List Char) : Prop :=
  ∀ c after, ahead = c :: after → endsRun c after = true ∧
    ¬ (IsInteger run ∧ c = '.' ∧ beginsWithDigit after = true)

theorem endsBefore_of_runLength {before chars : List Char} {whole : Bool}
    (tracks : Tracks before whole chars) :
    EndsBefore (before ++ chars.take (runLength whole chars))
      (chars.drop (runLength whole chars)) := by
  fun_induction runLength whole chars generalizing before with
  | case1 => simp [EndsBefore]
  | case2 whole c after point ih =>
      simp only [Bool.and_eq_true, beq_iff_eq] at point
      obtain ⟨⟨-, rfl⟩, -⟩ := point
      have later := ih (by simpa using tracks.step)
      rwa [List.append_assoc, List.singleton_append] at later
  | case3 whole c after point ends =>
      rw [List.take_zero, List.append_nil, List.drop_zero]
      rintro d behind same
      obtain ⟨rfl, rfl⟩ := List.cons.inj same
      refine ⟨ends, ?_⟩
      rintro ⟨integer, rfl, begins⟩
      exact point (by simp [tracks.whole_iff.mpr (.inl integer), begins])
  | case4 whole c after point goesOn ih =>
      have later := ih tracks.step
      rwa [List.append_assoc, List.singleton_append] at later

/-! ## Pieces that are runs -/

section RunCut

variable {mode : Mode} {touching after : List Char} {c : Char} {cut : Cut}

theorem tracks_of_digit {c : Char} (plain : isSymbol c = false) (ahead : List Char) :
    Tracks [c] c.isDigit ahead := by
  have minus : c ≠ '-' := by
    rintro rfl
    contradiction
  have same : [c] ≠ ['-'] := by simpa using minus
  refine ⟨by simp, ?_, fun sign => absurd sign same⟩
  constructor
  · exact fun digit => .inl ⟨_, .unsigned ⟨by simp, by simpa using digit⟩⟩
  · rintro (integer | sign)
    · simpa [minus] using isDigit_or_minus_of_isInteger integer c
    · exact absurd sign same

/-- A run is cut off at its first character, and goes on from there. -/
theorem CutAt.run_cases (offered : CutAt mode touching c after cut) (solid : isBlank c = false)
    (run : cut.shape = .run) :
    ∃ whole, cut = ⟨.run, 0, runLength whole after + 1⟩ ∧ Tracks [c] whole after ∧
      RunsOn [] c (after.take (runLength whole after)) ∧
      Apart c (after.take (runLength whole after)) := by
  cases offered with
  | negative minus apart begins =>
      subst minus
      refine ⟨true, rfl, ⟨by simp, by simp, fun _ => begins⟩, ?_, by simp [Apart]⟩
      exact .sign rfl rfl (beginsWithDigit_take_runLength begins true)
  | run unquoted other plain free =>
      exact ⟨c.isDigit, rfl, tracks_of_digit plain after, .ordinary solid unquoted other plain,
        apart_of_operator?_eq_none free _⟩
  | _ => simp at run

theorem CutAt.isRun (offered : CutAt mode touching c after cut) (solid : isBlank c = false)
    (run : cut.shape = .run) : IsRun (cut.taken (c :: after)) := by
  obtain ⟨whole, rfl, tracks, first, apart⟩ := offered.run_cases solid run
  apply isRun_of_runsOn (by simp [Cut.taken])
  intro before d behind split
  rw [Cut.taken, List.drop_zero, List.take_succ_cons] at split
  cases before with
  | nil =>
      obtain ⟨rfl, rfl⟩ := List.cons.inj split
      exact ⟨first, apart⟩
  | cons e middle =>
      obtain ⟨rfl, rest⟩ := List.cons.inj split
      exact runsOn_of_runLength tracks rest

theorem CutAt.endsBefore (offered : CutAt mode touching c after cut) (solid : isBlank c = false)
    (run : cut.shape = .run) :
    EndsBefore (cut.taken (c :: after)) (cut.left (c :: after)) := by
  obtain ⟨whole, rfl, tracks, -, -⟩ := offered.run_cases solid run
  exact endsBefore_of_runLength tracks

end RunCut

/-! ## Forms -/

/-- The forms of a piece of text. -/
inductive Form where
  | closed
  | unclosed
  | separator
  | operator
  | symbol
  | run
  deriving DecidableEq, Repr

namespace Form

/-- The texts of a form. -/
def Fits : Form → List Char → Prop
  | .closed, chars => ∃ mark middle, isQuote mark = true ∧ mark ∉ middle ∧
      chars = mark :: (middle ++ [mark])
  | .unclosed, chars => ∃ mark rest, isQuote mark = true ∧ mark ∉ rest ∧ chars = mark :: rest
  | .separator, chars => chars = [';']
  | .operator, chars => chars ∈ operators
  | .symbol, chars => ∃ c, isSymbol c = true ∧ chars = [c]
  | .run, chars => IsRun chars

/-- The form that a text can have, judged by its first character and what follows it. -/
def ofText : List Char → Form
  | [] => .run
  | c :: rest =>
      if isQuote c then if c ∈ rest then .closed else .unclosed
      else if c = ';' then .separator
      else if c :: rest ∈ operators then .operator
      else if isSymbol c ∧ rest = [] then .symbol
      else .run

theorem head_symbol_or_pair : ∀ operator ∈ operators, operator.head?.any isSymbol = true ∨
    operator = ['&', '&'] ∨ operator = ['|', '|'] := by decide

theorem ofText_run {chars : List Char} (run : IsRun chars) : ofText chars = .run := by
  cases chars with
  | nil => rfl
  | cons c rest =>
      cases run.runs_on [] c rest rfl with
      | sign _ minus begins =>
          subst minus
          have more : rest ≠ [] := by
            rintro rfl
            contradiction
          have other : '-' :: rest ∉ operators := by simp [operators]
          simp [ofText, isQuote, quoteMarks, other, more]
      | point integer => exact absurd integer not_isInteger_nil
      | ordinary _ unquoted other plain =>
          have free : c :: rest ∉ operators := by
            intro member
            rcases head_symbol_or_pair _ member with symbol | pair | pair
            · simp [plain] at symbol
            · exact run.no_and (pair ▸ List.infix_refl _)
            · exact run.no_or (pair ▸ List.infix_refl _)
          simp [ofText, unquoted, other, plain, free]

theorem eq_ofText_of_fits {form : Form} {chars : List Char} (fits : form.Fits chars) :
    form = ofText chars := by
  cases form with
  | closed =>
      obtain ⟨mark, middle, quote, -, rfl⟩ := fits
      simp [ofText, quote]
  | unclosed =>
      obtain ⟨mark, rest, quote, free, rfl⟩ := fits
      simp [ofText, quote, free]
  | separator =>
      obtain rfl := fits
      decide
  | operator =>
      have table : ∀ operator ∈ operators, ofText operator = .operator := by decide
      exact (table chars fits).symm
  | symbol =>
      obtain ⟨c, symbol, rfl⟩ := fits
      have table : symbols.all (fun c => !isQuote c && c != ';') = true := by decide
      have plain := List.all_eq_true.mp table c (by simpa [isSymbol] using symbol)
      rw [Bool.and_eq_true, Bool.not_eq_true', bne_iff_ne] at plain
      have long : ∀ operator ∈ operators, 1 < operator.length := by decide
      have short : [c] ∉ operators := fun member => absurd (long [c] member) (by simp)
      simp [ofText, plain, short, symbol]
  | run => exact (ofText_run fits).symm

end Form

/-! ## Every cut has a form -/

theorem exists_take_quotedLength {mark : Char} {chars : List Char} (closed : mark ∈ chars) :
    ∃ middle, mark ∉ middle ∧ chars.take (quotedLength mark chars) = middle ++ [mark] := by
  induction chars with
  | nil => contradiction
  | cons c after ih =>
      rw [quotedLength]
      split
      next same => exact ⟨[], by simp, by simp [same]⟩
      next other =>
        obtain ⟨middle, free, taken⟩ := ih ((List.mem_cons.mp closed).resolve_left (Ne.symm other))
        refine ⟨c :: middle, ?_, by rw [List.take_succ_cons, taken, List.cons_append]⟩
        rw [List.mem_cons, not_or]
        exact ⟨Ne.symm other, free⟩

theorem CutAt.exists_fits {mode : Mode} {touching after : List Char} {c : Char} {cut : Cut}
    (offered : CutAt mode touching c after cut) (solid : isBlank c = false)
    (untagged : ∀ type, cut.shape ≠ .typeTag type) :
    ∃ form : Form, form.Fits (cut.taken (c :: after)) ∧ (form = .run ↔ cut.shape = .run) := by
  by_cases run : cut.shape = .run
  · exact ⟨.run, offered.isRun solid run, by simp [run]⟩
  cases offered with
  | quoted quote =>
      by_cases closed : c ∈ after
      · obtain ⟨middle, free, taken⟩ := exists_take_quotedLength closed
        exact ⟨.closed, ⟨c, middle, quote, free, by simp [Cut.taken, taken]⟩, by simp⟩
      · have taken : after.take (quotedLength c after) = after := by
          rw [quotedLength_of_notMem closed, List.take_length]
        exact ⟨.unclosed, ⟨c, after, quote, closed, by simp [Cut.taken, taken]⟩, by simp⟩
  | separator semicolon => exact ⟨.separator, by simp [Form.Fits, Cut.taken, semicolon], by simp⟩
  | @typeTag type => exact absurd rfl (untagged type)
  | @operator operator found =>
      obtain ⟨listed, fits⟩ := operator?_eq_some found
      have taken := List.prefix_iff_eq_take.mp fits
      exact ⟨.operator, by simpa [Form.Fits, Cut.taken, ← taken] using listed, by simp⟩
  | symbol symbol => exact ⟨.symbol, ⟨c, symbol, by simp [Cut.taken]⟩, by simp⟩
  | negative | run => simp at run

end LineScript.Piece
