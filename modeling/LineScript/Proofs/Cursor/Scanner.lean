import LineScript.Proofs.Cursor
import LineScript.Proofs.Seam

/-!
# Scanning with a cursor

The scanner goes over the characters of a line with a cursor.  A run is pending as long as
it may go on, and is flushed when something else begins.  A semicolon makes the cursor go to
the end of the word behind it, and back again unless the word is a type tag.  A pass can go
wrong where it looks back from the cursor and where it takes that word, but never does, and
the scanner finds the pieces of the line.
-/

namespace LineScript.Cursor

open LineScript.Piece LineScript.Text

structure Scanner where
  current : Nat
  pending : List Char
  pendingStart : Nat
  pieces : List Piece

namespace Scanner

/-! ## Passes -/

def start : Scanner := ⟨0, [], 0, []⟩

def advance (scanner : Scanner) : Scanner := { scanner with current := scanner.current + 1 }

def emit (scanner : Scanner) (content : Content) (span : Span) : Scanner :=
  { scanner with pieces := scanner.pieces ++ [⟨content, span⟩] }

def flush (scanner : Scanner) : Scanner :=
  if scanner.pending = [] then scanner
  else
    { scanner with pending := [] }.emit (.text (String.ofList scanner.pending))
      ⟨scanner.pendingStart, scanner.pendingStart + scanner.pending.length⟩

def accumulate (scanner : Scanner) (c : Char) : Except Fault Scanner :=
  if scanner.pending = [] then do
    let first ← previous scanner.current
    return { scanner with pending := [c], pendingStart := first }
  else return { scanner with pending := scanner.pending ++ [c] }

/-- A text without the minus sign at its start. -/
def unsigned (chars : List Char) : List Char :=
  if chars.head? = some '-' then chars.tail else chars

def pendingIsInteger (scanner : Scanner) : Bool :=
  !(unsigned scanner.pending).isEmpty && (unsigned scanner.pending).all Char.isDigit

section Source

variable (source : List Char)

def peek (scanner : Scanner) : Char := source.getD scanner.current '\x00'

/-- Take characters behind some text, up to a mark or the end of the line. -/
def takeQuoted (mark : Char) (text : List Char) (current : Nat) : List Char × Nat :=
  if inside : current < source.length then
    if source[current] = mark then (text ++ [source[current]], current + 1)
    else takeQuoted mark (text ++ [source[current]]) (current + 1)
  else (text, current)
termination_by source.length - current

def quoted (scanner : Scanner) (mark : Char) : Except Fault Scanner := do
  let first ← previous scanner.current
  let (text, stop) := takeQuoted source mark [mark] scanner.current
  return { scanner with current := stop }.emit (.text (String.ofList text)) ⟨first, stop⟩

/-- Go to the next blank or the end of the line. -/
def wordEnd (current : Nat) : Nat :=
  if inside : current < source.length then
    if isBlank source[current] then current else wordEnd (current + 1)
  else current
termination_by source.length - current

def separator (mode : Mode) (scanner : Scanner) : Except Fault Scanner := do
  let mark ← previous scanner.current
  let first := scanner.current
  let ahead := { scanner with current := wordEnd source first }
  let word ← part source first ahead.current
  match mode, isIdentifier scanner.pending, TypeName.ofTag? (String.ofList word) with
  | .annotating, true, some type =>
      return ahead.flush.emit (.typeTag type) ⟨first, ahead.current⟩
  | _, _, _ => return { ahead with current := first }.flush.emit (.text ";") (.single mark)

def matchesAt : Nat → List Char → Bool
  | _, [] => true
  | position, c :: text => source[position]? == some c && matchesAt (position + 1) text

def operator (scanner : Scanner) : Except Fault (Option Scanner) := do
  let first ← previous scanner.current
  match operators.find? (matchesAt source first) with
  | some operator =>
      let stop := first + operator.length
      return some ({ scanner.flush with current := stop }.emit (.text (String.ofList operator))
        ⟨first, stop⟩)
  | none => return none

/-- Take a character with no meaning of its own, or an operator. -/
def ordinary (scanner : Scanner) (c : Char) : Except Fault Scanner := do
  match ← scanner.operator source with
  | some scanner => return scanner
  | none =>
      if isSymbol c then
        let first ← previous scanner.current
        return scanner.flush.emit (.text (String.ofList [c])) (.single first)
      else scanner.accumulate c

def pass (mode : Mode) (scanner : Scanner) : Except Fault Scanner :=
  let c := scanner.peek source
  let scanner := scanner.advance
  if isQuote c then scanner.flush.quoted source c
  else if isBlank c then return scanner.flush
  else if c = ';' then scanner.separator source mode
  else if c = '.' ∧ scanner.pendingIsInteger ∧ (scanner.peek source).isDigit then
    scanner.accumulate c
  else if c = '-' ∧ scanner.pending = [] ∧ (scanner.peek source).isDigit then
    scanner.accumulate c
  else scanner.ordinary source c

def loop (mode : Mode) : Loop Fault Scanner where
  limit := source.length
  cursor := current
  pass := pass source mode
  stalled := .stalled

end Source

def scan (mode : Mode) (line : String) : Except Fault (List Piece) :=
  ((loop line.toList mode).run start).map (·.flush.pieces)

/-! ## What the parts of a pass find -/

section Source

variable (source : List Char)

theorem takeQuoted_eq (mark : Char) (text : List Char) (current : Nat) :
    takeQuoted source mark text current =
      (text ++ (source.drop current).take (quotedLength mark (source.drop current)),
        current + quotedLength mark (source.drop current)) := by
  fun_induction takeQuoted source mark text current with
  | case1 text current inside same =>
      rw [List.drop_eq_getElem_cons inside, quotedLength, if_pos same]
      rfl
  | case2 text current inside other ih =>
      rw [ih, List.drop_eq_getElem_cons inside, quotedLength, if_neg other, List.take_succ_cons,
        List.append_assoc, List.singleton_append, Prod.mk.injEq]
      exact ⟨rfl, by omega⟩
  | case3 text current outside =>
      rw [List.drop_eq_nil_of_le (by omega), quotedLength]
      simp

theorem wordEnd_eq (current : Nat) :
    wordEnd source current =
      current + ((source.drop current).takeWhile fun c => !isBlank c).length := by
  fun_induction wordEnd source current with
  | case1 current inside blank =>
      rw [List.drop_eq_getElem_cons inside, List.takeWhile_cons_of_neg (by simp [blank])]
      rfl
  | case2 current inside solid ih =>
      rw [ih, List.drop_eq_getElem_cons inside, List.takeWhile_cons_of_pos (by simpa using solid),
        List.length_cons]
      omega
  | case3 current outside => simp [List.drop_eq_nil_of_le (Nat.le_of_not_lt outside)]

theorem part_word {current : Nat} (inside : current ≤ source.length) :
    part source current (wordEnd source current) =
      .ok ((source.drop current).takeWhile fun c => !isBlank c) := by
  have word := List.takeWhile_prefix (fun c => !isBlank c) (l := source.drop current)
  have length := word.length_le
  rw [List.length_drop] at length
  rw [wordEnd_eq, part_of_le (by omega) (by omega), Nat.add_sub_cancel_left,
    ← List.prefix_iff_eq_take.mp word]

theorem matchesAt_eq (position : Nat) (text : List Char) :
    matchesAt source position text = text.isPrefixOf (source.drop position) := by
  induction text generalizing position with
  | nil => simp [matchesAt]
  | cons c text ih =>
      rw [matchesAt, ih]
      cases split : source.drop position with
      | nil =>
          have outside : source.length ≤ position := List.drop_eq_nil_iff.mp split
          simp [List.getElem?_eq_none outside]
      | cons d rest =>
          rw [getElem?_of_drop split, drop_succ_of_drop split, List.isPrefixOf, BEq.comm]
          rfl

theorem find?_matchesAt (position : Nat) :
    operators.find? (matchesAt source position) = operator? (source.drop position) := by
  rw [operator?, funext (matchesAt_eq source position)]

end Source

/-! ## What a pass does -/

/-- Whether what is pending is an integer so far.  So is a minus sign alone, for it is pending
only before a digit. -/
def whole (pending : List Char) : Bool := (unsigned pending).all Char.isDigit

/-- Flush, and cut the next piece off the characters ahead. -/
def cutOff (scanner : Scanner) (cut : Cut) (ahead : List Char) : Scanner :=
  { scanner.flush with
    current := cut.stop scanner.current
    pieces := scanner.flush.pieces ++ [cut.piece scanner.current ahead] }

/-- What becomes of a scanner at a character with others behind it. -/
inductive Turn (mode : Mode) (scanner : Scanner) (c : Char) (after : List Char) : Scanner → Prop
  | skips (blank : isBlank c = true) :
      Turn mode scanner c after scanner.flush.advance
  | cuts (solid : isBlank c = false)
      (apart : scanner.pending ≠ [] → runLength (whole scanner.pending) (c :: after) = 0)
      (ended : ∀ chars, (nextCut mode scanner.pending c after).shape.touching chars = []) :
      Turn mode scanner c after
        (scanner.cutOff (nextCut mode scanner.pending c after) (c :: after))
  | begins (solid : isBlank c = false) (idle : scanner.pending = [])
      (cut : nextCut mode [] c after = ⟨.run, 0, runLength (whole [c]) after + 1⟩)
      (signed : c = '-' → beginsWithDigit after = true) :
      Turn mode scanner c after
        { scanner.advance with pending := [c], pendingStart := scanner.current }
  | continues (busy : scanner.pending ≠ [])
      (grows : runLength (whole scanner.pending) (c :: after) =
        runLength (whole (scanner.pending ++ [c])) after + 1) :
      Turn mode scanner c after
        { scanner.advance with pending := scanner.pending ++ [c] }

/-- What holds of a scanner before every pass. -/
structure Sound (source : List Char) (scanner : Scanner) : Prop where
  inside : scanner.current ≤ source.length
  begun : scanner.pending ≠ [] →
    scanner.pendingStart + scanner.pending.length = scanner.current
  signed : scanner.pending = ['-'] → beginsWithDigit (source.drop scanner.current) = true

theorem whole_append {pending : List Char} (busy : pending ≠ []) (c : Char) :
    whole (pending ++ [c]) = (whole pending && c.isDigit) := by
  cases pending with
  | nil => contradiction
  | cons first rest =>
      by_cases minus : first = '-' <;> simp [whole, unsigned, minus, Bool.and_assoc]

theorem whole_singleton {c : Char} (minus : c ≠ '-') : whole [c] = c.isDigit := by
  simp [whole, unsigned, minus]

theorem pendingIsInteger_eq {scanner : Scanner} (busy : scanner.pending ≠ [])
    (unsign : scanner.pending ≠ ['-']) : scanner.pendingIsInteger = whole scanner.pending := by
  rw [pendingIsInteger, whole, unsigned]
  split
  next minus =>
    obtain ⟨rest, pending⟩ := List.head?_eq_some_iff.mp minus
    have more : rest ≠ [] := by
      rintro rfl
      exact unsign pending
    simp [pending, more]
  · simp [busy]

section Pass

variable {source : List Char} {mode : Mode} {scanner : Scanner} {c : Char} {after : List Char}

theorem peek_of_drop (split : source.drop scanner.current = c :: after) :
    scanner.peek source = c := by
  rw [peek, List.getD_eq_getElem?_getD, getElem?_of_drop split, Option.getD_some]

theorem isDigit_peek (scanner : Scanner) :
    (scanner.peek source).isDigit = beginsWithDigit (source.drop scanner.current) := by
  cases split : source.drop scanner.current with
  | nil =>
      have outside : source.length ≤ scanner.current := List.drop_eq_nil_iff.mp split
      rw [peek, List.getD_eq_getElem?_getD, List.getElem?_eq_none outside]
      rfl
  | cons d rest =>
      rw [peek_of_drop split]
      rfl

theorem current_advance (scanner : Scanner) : scanner.advance.current = scanner.current + 1 := rfl

theorem pending_advance (scanner : Scanner) : scanner.advance.pending = scanner.pending := rfl

theorem pendingIsInteger_advance (scanner : Scanner) :
    scanner.advance.pendingIsInteger = scanner.pendingIsInteger := rfl

theorem current_flush (scanner : Scanner) : scanner.flush.current = scanner.current := by
  rw [flush]
  split <;> rfl

theorem pending_flush (scanner : Scanner) : scanner.flush.pending = [] := by
  rw [flush]
  split
  · assumption
  · rfl

theorem flush_moved (scanner : Scanner) (position : Nat) :
    { scanner with current := position }.flush = { scanner.flush with current := position } := by
  simp only [flush, emit]
  split <;> rfl

theorem flush_advance (scanner : Scanner) : scanner.advance.flush = scanner.flush.advance := by
  rw [advance, flush_moved, advance, current_flush]

theorem accumulate_of_idle (idle : scanner.pending = []) :
    scanner.advance.accumulate c =
      .ok { scanner.advance with pending := [c], pendingStart := scanner.current } := by
  rw [accumulate, pending_advance, if_pos idle]
  rfl

theorem accumulate_of_busy (busy : scanner.pending ≠ []) :
    scanner.advance.accumulate c =
      .ok { scanner.advance with pending := scanner.pending ++ [c] } := by
  rw [accumulate, pending_advance, if_neg busy]
  rfl

theorem quoted_cuts (split : source.drop scanner.current = c :: after) (quote : isQuote c = true) :
    scanner.flush.advance.quoted source c =
      .ok (scanner.cutOff (nextCut mode scanner.pending c after) (c :: after)) := by
  have cut := nextCut_of_isQuote mode scanner.pending quote after
  have stop : scanner.current + 1 + quotedLength c after =
      scanner.current + (quotedLength c after + 1) := by omega
  simp only [cut, advance, quoted, current_flush, previous_succ, ok_bind, takeQuoted_eq,
    drop_succ_of_drop split, stop]
  rfl

theorem separator_cuts (split : source.drop scanner.current = ';' :: after) :
    scanner.advance.separator source mode =
      .ok (scanner.cutOff (nextCut mode scanner.pending ';' after) (';' :: after)) := by
  have cut := nextCut_semicolon mode scanner.pending after
  have word := part_word source (lt_length_of_drop split)
  have stop := wordEnd_eq source (scanner.current + 1)
  rw [Nat.succ_eq_add_one, drop_succ_of_drop split] at word
  rw [drop_succ_of_drop split] at stop
  simp only [separator, advance, previous_succ, ok_bind, word, cut, separatorCut, announcedType?,
    flush_moved]
  cases mode with
  | terminating => rfl
  | annotating =>
      cases isIdentifier scanner.pending with
      | false => rfl
      | true =>
          cases announced : TypeName.ofTag? (String.ofList (after.takeWhile fun c => !isBlank c)) with
          | none => rfl
          | some type =>
              have length : type.name.length = (after.takeWhile fun c => !isBlank c).length := by
                rw [← (announcedType?_eq_some_iff.mp announced).2, String.length_toList]
              rw [← length] at stop
              simp only [cutOff, emit, Cut.stop, Cut.piece, Shape.content, stop]
              rfl

theorem operator_cuts {operator : List Char} (split : source.drop scanner.current = c :: after)
    (found : operator? (c :: after) = some operator)
    (cut : nextCut mode scanner.pending c after = ⟨.operator, 0, operator.length⟩) :
    scanner.advance.operator source =
      .ok (some (scanner.cutOff (nextCut mode scanner.pending c after) (c :: after))) := by
  have spelled := List.prefix_iff_eq_take.mp (operator?_eq_some found).2
  simp only [Scanner.operator, advance, previous_succ, ok_bind, find?_matchesAt, split, found, cut,
    flush_moved, cutOff, emit, Cut.stop, Cut.piece, Cut.taken, Shape.content, Nat.add_zero,
    List.drop_zero, ← spelled]
  rfl

theorem operator_of_none (split : source.drop scanner.current = c :: after)
    (none : operator? (c :: after) = none) : scanner.advance.operator source = .ok .none := by
  simp only [Scanner.operator, current_advance, previous_succ, ok_bind, find?_matchesAt, split,
    none]
  rfl

/-- A point joins a run that is an integer, and a minus sign alone is none. -/
theorem pendingIsInteger_at_point (sound : Sound source scanner)
    (split : source.drop scanner.current = '.' :: after) (busy : scanner.pending ≠ []) :
    scanner.pendingIsInteger = whole scanner.pending := by
  apply pendingIsInteger_eq busy
  intro minus
  have digit := sound.signed minus
  rw [split] at digit
  contradiction

theorem runLength_of_endsRun {joins : Bool} (ends : endsRun c after = true)
    (apart : c = '.' → beginsWithDigit after = true → joins = false) :
    runLength joins (c :: after) = 0 := by
  rw [runLength, if_neg, if_pos ends]
  simp only [Bool.and_eq_true, beq_iff_eq, not_and]
  rintro ⟨whole, point⟩ digit
  simp [apart point digit] at whole

/-- Away from quotes, semicolons and the starts of negative numerals, an operator is cut
off, or a symbol, or the character joins a run. -/
theorem ordinary_turns (mode : Mode) (split : source.drop scanner.current = c :: after)
    (quote : ¬ isQuote c = true) (solid : isBlank c = false) (semicolon : c ≠ ';')
    (minus : ¬ (c = '-' ∧ scanner.pending = [] ∧ beginsWithDigit after = true))
    (apart : scanner.pending ≠ [] → c = '.' → beginsWithDigit after = true →
      whole scanner.pending = false) :
    ∃ next, scanner.advance.ordinary source c = .ok next ∧ Turn mode scanner c after next := by
  cases found : operator? (c :: after) with
  | some operator =>
      have cut : nextCut mode scanner.pending c after = ⟨.operator, 0, operator.length⟩ := by
        rw [nextCut, if_neg quote, if_neg semicolon, if_neg minus, found]
      refine ⟨_, by rw [ordinary, operator_cuts split found cut]; rfl, .cuts solid ?_ ?_⟩
      · exact fun busy => runLength_of_endsRun (by simp [endsRun, found]) (apart busy)
      · simp [cut, Shape.touching]
  | none =>
      rw [ordinary, operator_of_none split found, ok_bind]
      by_cases symbol : isSymbol c = true
      · have cut : nextCut mode scanner.pending c after = ⟨.symbol, 0, 1⟩ := by
          rw [nextCut, if_neg quote, if_neg semicolon, if_neg minus, found]
          exact if_pos symbol
        refine ⟨scanner.cutOff (nextCut mode scanner.pending c after) (c :: after), ?_,
          .cuts solid ?_ ?_⟩
        · simp only [cut, if_pos symbol, advance, previous_succ, ok_bind, flush_moved, cutOff]
          rfl
        · exact fun busy => runLength_of_endsRun (by simp [endsRun, symbol]) (apart busy)
        · simp [cut, Shape.touching]
      · have unsigned : c ≠ '-' := by
          rintro rfl
          contradiction
        simp only [if_neg symbol]
        by_cases idle : scanner.pending = []
        · refine ⟨_, accumulate_of_idle idle,
            .begins solid idle ?_ fun same => absurd same unsigned⟩
          rw [nextCut, if_neg quote, if_neg semicolon, if_neg fun minus => unsigned minus.1, found,
            whole_singleton unsigned]
          exact if_neg symbol
        · refine ⟨_, accumulate_of_busy idle, .continues idle ?_⟩
          have goesOn : endsRun c after = false := by
            simp [endsRun, quote, solid, semicolon, symbol, found]
          have other : c ≠ '.' := by
            rintro rfl
            contradiction
          rw [runLength, if_neg (by simp [other]), if_neg (by simp [goesOn]), whole_append idle]

theorem pass_turns (mode : Mode) (sound : Sound source scanner)
    (split : source.drop scanner.current = c :: after) :
    ∃ next, pass source mode scanner = .ok next ∧ Turn mode scanner c after next := by
  have digit : (scanner.advance.peek source).isDigit = beginsWithDigit after := by
    rw [isDigit_peek]
    exact congrArg beginsWithDigit (drop_succ_of_drop split)
  rw [pass, peek_of_drop split]
  simp only [flush_advance, digit, pendingIsInteger_advance, pending_advance]
  by_cases quote : isQuote c = true
  · refine ⟨_, by rw [if_pos quote, quoted_cuts split quote], .cuts ?_ ?_ ?_⟩
    · exact not_isBlank_of_isQuote quote
    · have point : c ≠ '.' := by
        rintro rfl
        contradiction
      exact fun _ => runLength_of_endsRun (by simp [endsRun, quote]) fun same => absurd same point
    · simp [nextCut_of_isQuote mode scanner.pending quote, Shape.touching]
  rw [if_neg quote]
  by_cases blank : isBlank c = true
  · exact ⟨_, by rw [if_pos blank]; rfl, .skips blank⟩
  rw [if_neg blank]
  by_cases semicolon : c = ';'
  · subst semicolon
    refine ⟨_, by rw [if_pos rfl, separator_cuts split], .cuts (by decide) ?_ ?_⟩
    · exact fun _ => endsRuns_semicolon after _
    · rcases separatorCut_cases mode scanner.pending after with cut | ⟨type, cut, -⟩ <;>
        simp [nextCut_semicolon, cut, Shape.touching]
  rw [if_neg semicolon]
  by_cases point : c = '.' ∧ scanner.pendingIsInteger = true ∧ beginsWithDigit after = true
  · obtain ⟨rfl, integer, begins⟩ := point
    have busy : scanner.pending ≠ [] := by
      intro idle
      simp [pendingIsInteger, idle, unsigned] at integer
    have joins : whole scanner.pending = true := by
      rw [← pendingIsInteger_at_point sound split busy, integer]
    refine ⟨_, by rw [if_pos ⟨rfl, integer, begins⟩, accumulate_of_busy busy], .continues busy ?_⟩
    rw [whole_append busy, runLength, if_pos (by simp [joins, begins]), joins]
    rfl
  rw [if_neg point]
  by_cases minus : c = '-' ∧ scanner.pending = [] ∧ beginsWithDigit after = true
  · obtain ⟨rfl, idle, begins⟩ := minus
    refine ⟨_, by rw [if_pos ⟨rfl, idle, begins⟩, accumulate_of_idle idle],
      .begins (by decide) idle ?_ fun _ => begins⟩
    rw [nextCut_negative mode begins]
    rfl
  rw [if_neg minus]
  refine ordinary_turns mode split quote (by simpa using blank) semicolon minus ?_
  rintro busy rfl begins
  rw [← pendingIsInteger_at_point sound split busy, Bool.eq_false_iff]
  exact fun integer => point ⟨rfl, integer, begins⟩

/-! ## What every pass keeps -/

theorem Turn.forward {next : Scanner} (turn : Turn mode scanner c after next) :
    scanner.current < next.current := by
  cases turn with
  | skips => rw [current_advance, current_flush]; exact Nat.lt_succ_self _
  | cuts =>
      have taken := nextCut_length_pos mode scanner.pending c after
      simp only [cutOff, Cut.stop]
      omega
  | begins | continues => exact Nat.lt_succ_self _

theorem Turn.sound {next : Scanner} (turn : Turn mode scanner c after next)
    (sound : Sound source scanner) (split : source.drop scanner.current = c :: after) :
    Sound source next := by
  have before := lt_length_of_drop split
  cases turn with
  | skips =>
      refine ⟨?_, fun busy => ?_, fun minus => ?_⟩
      · rw [current_advance, current_flush]
        exact before
      · exact absurd (pending_flush scanner) busy
      · rw [pending_advance, pending_flush] at minus
        contradiction
  | cuts =>
      refine ⟨?_, fun busy => ?_, fun minus => ?_⟩
      · have inside := nextCut_le mode scanner.pending c after
        rw [← split, List.length_drop] at inside
        simp only [cutOff, Cut.stop]
        omega
      · exact absurd (pending_flush scanner) busy
      · simp [cutOff, pending_flush] at minus
  | begins _ _ _ signed =>
      refine ⟨before, fun _ => rfl, fun minus => ?_⟩
      rw [current_advance, drop_succ_of_drop split]
      exact signed (List.singleton_inj.mp minus)
  | continues busy _ =>
      refine ⟨before, fun _ => ?_, fun minus => ?_⟩
      · have begun := sound.begun busy
        simp only [List.length_append, List.length_singleton, current_advance]
        simp only [advance]
        omega
      · have pending := List.length_pos_iff.mpr busy
        have length := congrArg List.length minus
        rw [List.length_append, List.length_singleton, List.length_singleton] at length
        omega

/-- The pieces that a scanner will have found at the end of the line. -/
def outlook (source : List Char) (mode : Mode) (scanner : Scanner) : List Piece :=
  let ahead := source.drop scanner.current
  if scanner.pending = [] then scanner.pieces ++ scanFrom mode scanner.current [] ahead
  else
    let length := runLength (whole scanner.pending) ahead
    let run := scanner.pending ++ ahead.take length
    scanner.pieces ++
      ⟨.text (String.ofList run), ⟨scanner.pendingStart, scanner.current + length⟩⟩ ::
        scanFrom mode (scanner.current + length) run (ahead.drop length)

theorem outlook_of_idle (idle : scanner.pending = []) :
    scanner.outlook source mode =
      scanner.pieces ++ scanFrom mode scanner.current [] (source.drop scanner.current) :=
  if_pos idle

/-- What does not join the characters ahead can as well be flushed now. -/
theorem outlook_of_apart (sound : Sound source scanner)
    (apart : scanner.pending ≠ [] →
      runLength (whole scanner.pending) (source.drop scanner.current) = 0) :
    scanner.outlook source mode = scanner.flush.pieces ++
      scanFrom mode scanner.current scanner.pending (source.drop scanner.current) := by
  by_cases idle : scanner.pending = []
  · rw [outlook_of_idle idle, flush, if_pos idle, idle]
  · simp [outlook, flush, idle, apart idle, emit, sound.begun idle]

theorem outlook_at_end (sound : Sound source scanner) (after : source.length ≤ scanner.current) :
    scanner.outlook source mode = scanner.flush.pieces := by
  have ahead := List.drop_eq_nil_of_le after
  rw [outlook_of_apart sound (by simp [ahead, runLength]), ahead, scanFrom, List.append_nil]

theorem Turn.outlook_eq {next : Scanner} (turn : Turn mode scanner c after next)
    (sound : Sound source scanner) (split : source.drop scanner.current = c :: after) :
    next.outlook source mode = scanner.outlook source mode := by
  have behind := drop_succ_of_drop split
  have reached (length : Nat) : scanner.current + 1 + length = scanner.current + (length + 1) := by
    omega
  cases turn with
  | skips blank =>
      have idle : scanner.flush.advance.pending = [] := pending_flush scanner
      rw [outlook_of_idle idle, outlook_of_apart sound, split, scanFrom, if_pos blank,
        current_advance, current_flush, behind]
      · rfl
      · rw [split]
        exact fun _ => endsRuns_blank blank after _
  | cuts solid apart ended =>
      have left : source.drop ((nextCut mode scanner.pending c after).stop scanner.current) =
          (nextCut mode scanner.pending c after).left (c :: after) := by
        rw [Cut.left, ← split, List.drop_drop, List.drop_drop, Cut.stop, Nat.add_assoc]
      have idle : (scanner.cutOff (nextCut mode scanner.pending c after) (c :: after)).pending =
          [] := pending_flush scanner
      rw [outlook_of_idle idle, outlook_of_apart sound (by rwa [split]), split,
        scanFrom_of_solid mode _ _ solid, ended]
      simp only [cutOff, left, List.append_assoc, List.singleton_append]
  | begins solid idle cut _ =>
      rw [outlook_of_idle idle, split, scanFrom_of_solid mode _ _ solid, cut]
      simp [outlook, advance, behind, reached, Cut.piece, Cut.taken, Cut.left, Cut.stop,
        Shape.content, Shape.touching]
  | continues busy grows =>
      simp [outlook, advance, behind, reached, split, busy, grows]

end Pass

/-! ## The whole line -/

variable (source : List Char) (mode : Mode)

theorem sound_start : Sound source start :=
  ⟨Nat.zero_le _, fun busy => absurd rfl busy, fun minus => by contradiction⟩

theorem loop_goes {scanner : Scanner} (sound : Sound source scanner)
    (before : scanner.current < source.length) :
    (loop source mode).Goes
      (fun next => Sound source next ∧ next.outlook source mode = scanner.outlook source mode)
      (fun _ => False) scanner := by
  have split := List.drop_eq_getElem_cons before
  obtain ⟨next, passed, turn⟩ := pass_turns mode sound split
  exact .moves ⟨turn.sound sound split, turn.outlook_eq sound split⟩ turn.forward passed

theorem loop_safe : (loop source mode).Safe (fun _ => False) start :=
  Loop.safe_of_kept (sound_start source) (fun _ sound => sound.inside) fun _ sound before =>
    (loop_goes source mode sound before).imp (fun _ kept => kept.1) fun _ => id

theorem scan_eq (line : String) : scan mode line = .ok (Piece.scan mode line) := by
  have run := Loop.map_run (fun scanner => .ok (scanner.outlook line.toList mode)) (·.flush.pieces)
    (fun _ sound before => (loop_goes line.toList mode sound before).imp
      (fun _ kept => ⟨kept.1, congrArg _ kept.2⟩) fun _ => False.elim)
    (fun _ sound after => congrArg _ (outlook_at_end sound after)) (sound_start line.toList)
  rw [scan, run, outlook_of_idle rfl]
  rfl

end Scanner

end LineScript.Cursor
