import LineScript.Proofs.Joining
import LineScript.Proofs.Seam.Marks
import LineScript.Session.Read

/-!
# Blanks at the end of a line

Blanks behind a line are passed over, so a line does the same with its terminator as without.
Only a mark that the line leaves open takes them in; then the last token is of unknown kind,
and the line is rejected either way.
-/

namespace LineScript

open LineScript.Piece LineScript.Text

/-! ## Pieces -/

namespace Piece

theorem scanFrom_of_blanks (mode : Mode) (position : Nat) (touching : List Char)
    {blanks : List Char} (blank : ∀ c ∈ blanks, isBlank c = true) :
    scanFrom mode position touching blanks = [] := by
  induction blanks generalizing position touching with
  | nil => rw [scanFrom]
  | cons c rest ih =>
      obtain ⟨first, others⟩ := List.forall_mem_cons.mp blank
      rw [scanFrom, if_pos first]
      exact ih (position + 1) [] others

variable (mode : Mode) {line blanks : String}

theorem scan_append_blanks_of_closed (blank : ∀ c ∈ blanks.toList, isBlank c = true)
    (closed : openMark line.toList = none) : scan mode (line ++ blanks) = scan mode line := by
  rw [scan, scan, String.toList_append]
  cases spelled : blanks.toList with
  | nil => rw [List.append_nil]
  | cons c rest =>
      rw [spelled, List.forall_mem_cons] at blank
      rw [scanFrom_append_blank blank.1, scanFrom_of_blanks _ _ _ blank.2, List.append_nil]
      intro piece last
      exact not_unclosed_of_openMark mode 0 [] _ closed (List.mem_of_getLast? last)

theorem LeavesOpen.append_blanks {mark : Char} {rest blanks : List Char}
    (leaves : LeavesOpen mark rest) (blank : ∀ c ∈ blanks, isBlank c = true) :
    LeavesOpen mark (rest ++ blanks) := by
  refine ⟨leaves.1, ?_⟩
  rw [List.mem_append, not_or]
  refine ⟨leaves.2, fun member => ?_⟩
  have solid := not_isBlank_of_isQuote leaves.1
  rw [blank mark member] at solid
  contradiction

/-- A mark that is open takes in the blanks behind the line. -/
theorem scan_append_blanks_of_open (blank : ∀ c ∈ blanks.toList, isBlank c = true) {mark : Char}
    (opened : openMark line.toList = some mark) :
    ∃ earlier rest start, LeavesOpen mark rest ∧
      scan mode line =
        earlier ++ [⟨.text (String.ofList (mark :: rest)), ⟨start, line.length⟩⟩] ∧
      scan mode (line ++ blanks) =
        earlier ++ [⟨.text (String.ofList (mark :: (rest ++ blanks.toList))),
          ⟨start, line.length + blanks.length⟩⟩] := by
  obtain ⟨earlier, rest, start, leaves, scanned⟩ := scanFrom_of_openMark mode 0 [] _ opened
  rw [← scan, Nat.zero_add, String.length_toList] at scanned
  refine ⟨earlier, rest, start, leaves, scanned, ?_⟩
  cases spelled : blanks.toList with
  | nil =>
      obtain rfl : blanks = "" := String.toList_eq_nil_iff.mp spelled
      simpa using scanned
  | cons c more =>
      obtain rfl : blanks = String.singleton c ++ String.ofList more := by
        rw [← String.toList_inj, spelled]
        simp
      rw [spelled, List.forall_mem_cons] at blank
      have free : mark ∉ (String.ofList more).toList := by
        have longer := leaves.append_blanks blank.2
        simpa [leaves.2] using longer.2
      have taken := scan_append_blank_of_unclosed blank.1 scanned leaves free
      rw [String.append_assoc] at taken
      simpa [Nat.add_assoc] using taken

end Piece

/-! ## Tokens -/

namespace Token

/-- A token with more text at its end. -/
def extend (text : String) (token : Token) : Token :=
  { token with
    lexeme := token.lexeme ++ text
    span := ⟨token.span.start, token.span.stop + text.length⟩ }

theorem ofLine_append_blanks_of_open (mode : Mode) {line blanks : String} {mark : Char}
    (blank : ∀ c ∈ blanks.toList, isBlank c = true) (opened : openMark line.toList = some mark) :
    ∃ earlier last, last.kind = .unknown ∧ ofLine mode line = earlier ++ [last] ∧
      ofLine mode (line ++ blanks) = earlier ++ [last.extend blanks] := by
  obtain ⟨earlier, rest, start, leaves, scanned, longer⟩ :=
    scan_append_blanks_of_open mode blank opened
  let last : Token :=
    ⟨.unknown, String.ofList (mark :: rest), earlier.length, ⟨start, line.length⟩, .void⟩
  have extended : last.extend blanks = ⟨.unknown, String.ofList (mark :: (rest ++ blanks.toList)),
      earlier.length, ⟨start, line.length + blanks.length⟩, .void⟩ := by
    have lexeme : String.ofList (mark :: rest) ++ blanks =
        String.ofList (mark :: (rest ++ blanks.toList)) := by
      rw [← String.toList_inj]
      simp
    simp only [extend, last, lexeme]
  refine ⟨earlier.mapIdx classify, last, rfl, ?_, ?_⟩
  · simp only [ofLine, scanned, List.mapIdx_append, List.mapIdx_cons, List.mapIdx_nil,
      Nat.zero_add, classify_of_leavesOpen _ _ leaves, last]
  · simp only [ofLine, longer, List.mapIdx_append, List.mapIdx_cons, List.mapIdx_nil,
      Nat.zero_add, classify_of_leavesOpen _ _ (leaves.append_blanks blank), extended]

end Token

/-! ## Lines -/

theorem interpret_of_same_tokens {mode : Mode} {line other : String}
    (same : Token.ofLine mode line = Token.ofLine mode other) (scope : Scope) :
    interpret mode line scope = interpret mode other scope := by
  simp only [interpret, same]

theorem interpret_of_unknown {mode : Mode} {line : String} {token : Token}
    (member : token ∈ Token.ofLine mode line) (unknown : token.kind = .unknown) (scope : Scope) :
    ∃ diagnostic,
      interpret mode line scope = ⟨Token.ofLine mode line, .rejected diagnostic, scope⟩ := by
  cases read : Program.ofTokens (Token.ofLine mode line) with
  | ok program => exact absurd unknown (Token.known_of_read read member)
  | error diagnostic => exact ⟨diagnostic, interpret_of_error read scope⟩

/-- What a line does, compared with what it does with blanks behind it. -/
structure EndsAlike (line blanks : String) (short long : Interpretation) : Prop where
  kind : long.outcome.SameKind short.outcome
  events : long.outcome.events = short.outcome.events
  scope : long.scope = short.scope
  closed : openMark line.toList = none →
    long.tokens = short.tokens ∧ long.outcome.failure = short.outcome.failure
  opened : openMark line.toList ≠ none →
    (∃ diagnostic, short.outcome = .rejected diagnostic) ∧
    (∃ diagnostic, long.outcome = .rejected diagnostic) ∧
    ∃ earlier last, last.kind = .unknown ∧ short.tokens = earlier ++ [last] ∧
      long.tokens = earlier ++ [last.extend blanks]

theorem endsAlike_append_blanks (mode : Mode) (line blanks : String) (scope : Scope)
    (blank : ∀ c ∈ blanks.toList, isBlank c = true) :
    EndsAlike line blanks (interpret mode line scope) (interpret mode (line ++ blanks) scope) := by
  cases marks : openMark line.toList with
  | none =>
      have tokens : Token.ofLine mode (line ++ blanks) = Token.ofLine mode line := by
        rw [Token.ofLine, Token.ofLine, scan_append_blanks_of_closed mode blank marks]
      rw [interpret_of_same_tokens tokens]
      exact ⟨.refl _, rfl, rfl, fun _ => ⟨rfl, rfl⟩, fun opened => absurd marks opened⟩
  | some mark =>
      obtain ⟨earlier, last, unknown, tokens, longer⟩ :=
        Token.ofLine_append_blanks_of_open mode blank marks
      have member : last ∈ Token.ofLine mode line := by simp [tokens]
      have memberToo : last.extend blanks ∈ Token.ofLine mode (line ++ blanks) := by simp [longer]
      obtain ⟨diagnostic, rejected⟩ := interpret_of_unknown member unknown scope
      obtain ⟨other, alsoRejected⟩ := interpret_of_unknown memberToo unknown scope
      rw [rejected, alsoRejected, tokens, longer]
      refine ⟨.rejected _ _, rfl, rfl, fun closed => ?_, fun _ => ?_⟩
      · rw [marks] at closed
        contradiction
      · exact ⟨⟨_, rfl⟩, ⟨_, rfl⟩, earlier, last, unknown, rfl, rfl⟩

theorem isBlank_of_isLineEnd {c : Char} (ends : isLineEnd c = true) : isBlank c = true := by
  simp only [isLineEnd, Bool.or_eq_true, beq_iff_eq] at ends
  rcases ends with rfl | rfl <;> decide

/-- What is stripped off a line is blank. -/
theorem Read.exists_append_bare (text : String) :
    ∃ ending, (∀ c ∈ ending.toList, isLineEnd c = true) ∧ text = bare text ++ ending := by
  refine ⟨String.ofList (text.toList.reverse.takeWhile isLineEnd).reverse, ?_, ?_⟩
  · intro c member
    rw [String.toList_ofList, List.mem_reverse] at member
    exact List.mem_takeWhile_imp member
  · rw [← String.toList_inj, String.toList_append, bare, stripLineEnd, dropEndWhile,
      String.toList_ofList, String.toList_ofList, ← List.reverse_append,
      List.takeWhile_append_dropWhile, List.reverse_reverse]

/-- Blanks behind a line change nothing that it does, and nothing at all unless it leaves a
mark open.  So a reader that strips the terminators of lines and one that keeps them agree. -/
theorem interpret_ignores_trailing_blanks (mode : Mode) (scope : Scope) :
    (∀ line blanks : String, (∀ c ∈ blanks.toList, isBlank c = true) →
      EndsAlike line blanks (interpret mode line scope) (interpret mode (line ++ blanks) scope)) ∧
    ∀ text, ∃ ending, text = Read.bare text ++ ending ∧
      EndsAlike (Read.bare text) ending (interpret mode (Read.bare text) scope)
        (interpret mode text scope) := by
  refine ⟨fun line blanks => endsAlike_append_blanks mode line blanks scope, fun text => ?_⟩
  obtain ⟨ending, ends, whole⟩ := Read.exists_append_bare text
  have alike := endsAlike_append_blanks mode (Read.bare text) ending scope
    fun c member => isBlank_of_isLineEnd (ends c member)
  rw [← whole] at alike
  exact ⟨ending, whole, alike⟩

theorem interpret_ignores_line_end_in_open_mark :
    let line := "print 1 set x = 'it"
    let short := interpret .annotating line .empty
    let long := interpret .annotating (line ++ "\r\n") .empty
    (∀ c ∈ "\r\n".toList, isBlank c = true) ∧ openMark line.toList = some '\'' ∧
      long.outcome.events = [] ∧ (∃ diagnostic, long.outcome = .rejected diagnostic) ∧
      short.tokens.getLast? = some ⟨.unknown, "'it", 5, ⟨16, 19⟩, .void⟩ ∧
      long.tokens.getLast? = some ⟨.unknown, "'it\r\n", 5, ⟨16, 21⟩, .void⟩ := by
  intro line short long
  have blank : ∀ c ∈ "\r\n".toList, isBlank c = true := List.all_eq_true.mp (by decide)
  have marks : openMark line.toList = some '\'' := by decide
  have alike := (interpret_ignores_trailing_blanks .annotating .empty).1 line "\r\n" blank
  obtain ⟨⟨diagnostic, rejected⟩, alsoRejected, earlier, last, -, tokens, longer⟩ :=
    alike.opened (by simp [marks])
  have found : short.tokens.getLast? = some ⟨.unknown, "'it", 5, ⟨16, 19⟩, .void⟩ := by
    decide +kernel
  obtain rfl : last = _ := by simpa [short, tokens] using found
  refine ⟨blank, marks, ?_, alsoRejected, found, ?_⟩
  · rw [alike.events, rejected]
    rfl
  · rw [longer, List.getLast?_concat]
    decide +kernel

end LineScript
