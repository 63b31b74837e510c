import LineScript.Proofs.Pointing
import LineScript.Report

/-!
# Frames around what diagnostics point at

The frame of a report is left out for a span that starts behind the text, and a text of one
line is left out for a span that ends behind it.  A diagnostic that points into its line is
never of the first sort, and of the second only where the line ends early and nothing stands
behind its last token.
-/

namespace LineScript

namespace Report

/-! ## Rows of a report -/

/-- A row that begins with the number of a line, as every row does that shows one. -/
def ShowsLine (row : Row) : Prop :=
  ∃ digits number cells, row = lineMargin digits number ++ cells

/-- A headline over a frame that opens with a column of the first line of a file. -/
def Framed (filename : String) (column : Nat) (rows : List Row) : Prop :=
  ∃ headline inner, rows = headline ::
    [plain "   ", painted .frame "╭", painted .frame "─", painted .frame "[",
      plain (filename ++ ":1:" ++ Numeral.naturalText (column + 1)), painted .frame "]"] ::
    inner ++ [[painted .frame "───╯"]]

theorem ShowsLine.begins {row : Row} (shown : ShowsLine row) :
    ∃ number rest, row = plain " " :: painted .frame number :: rest := by
  obtain ⟨digits, number, cells, rfl⟩ := shown
  exact ⟨_, _, rfl⟩

theorem not_showsLine_of_painted (paint : Paint) (text : String) (rest : Row) :
    ¬ ShowsLine (painted paint text :: rest) := by
  intro shown
  obtain ⟨number, others, same⟩ := shown.begins
  simp [plain, painted] at same

theorem not_showsLine_of_indented {indent : String} (wide : indent ≠ " ") (rest : Row) :
    ¬ ShowsLine (plain indent :: rest) := by
  intro shown
  obtain ⟨number, others, same⟩ := shown.begins
  simp [plain, wide] at same

theorem not_showsLine_margin (digits : Nat) (rest : Row) : ¬ ShowsLine (margin digits ++ rest) := by
  intro shown
  obtain ⟨number, others, same⟩ := shown.begins
  simp [margin, plain, painted] at same

/-! ## Texts of one line -/

namespace Excerpt

variable {excerpt : Excerpt} {line : List Char} (single : excerpt.lines = [line])

include single

theorem first_of_single : excerpt.first = ⟨0, excerpt.span.start⟩ := by
  rw [first, single]
  rfl

theorem last_of_single : excerpt.last.line = 0 := by
  rw [last, single]
  rfl

theorem digits_of_single : excerpt.digits = 1 := by
  rw [digits, last_of_single single]
  rfl

theorem isWithinLine_of_single : excerpt.isWithinLine = true := by
  rw [isWithinLine, first_of_single single, last_of_single single]
  rfl

theorem openingRows_of_single (filename : String) :
    openingRows filename excerpt =
      [[plain "   ", painted .frame "╭", painted .frame "─", painted .frame "[",
          plain (filename ++ ":1:" ++ Numeral.naturalText (excerpt.span.start + 1)),
          painted .frame "]"],
        [plain "   ", painted .frame "│"]] := by
  have indent : spaces 3 = "   " := rfl
  have line : ":" ++ Numeral.naturalText 1 ++ ":" = ":1:" := rfl
  simp only [openingRows, first_of_single single, digits_of_single single, indent, ← line,
    String.append_assoc]

theorem closingRow_of_single : closingRow excerpt = [painted .frame "───╯"] := by
  rw [closingRow, digits_of_single single]
  rfl

theorem rows_of_single :
    excerpt.rows =
      if line.length < excerpt.span.stop then [margin 1] else excerpt.inlineRows := by
  rw [rows, isWithinLine_of_single single, digits_of_single single, overruns, length, single]
  simp

theorem footMargin_of_single : excerpt.footMargin = margin 1 := by
  rw [footMargin, isWithinLine_of_single single, digits_of_single single, if_pos rfl,
    List.append_nil]

/-- The one line, with the span painted. -/
theorem lineRow_mem_inlineRows :
    lineMargin 1 0 ++ textCells excerpt.label excerpt.span (Text.dropEndWhile Text.isBlank line) ∈
      excerpt.inlineRows := by
  have shown : excerpt.lineRow 0 [] =
      lineMargin 1 0 ++
        textCells excerpt.label excerpt.span (Text.dropEndWhile Text.isBlank line) := by
    simp [lineRow, digits_of_single single, spanIn, shownText, Excerpt.line, single]
  rw [← shown, inlineRows, first_of_single single]
  exact List.mem_cons_self

theorem not_showsLine_noteRows {help : Option String} {row : Row}
    (member : row ∈ noteRows excerpt help) : ¬ ShowsLine row := by
  cases help with
  | none => contradiction
  | some text =>
      rw [noteRows, footMargin_of_single single] at member
      simp only [List.mem_cons, List.not_mem_nil, or_false] at member
      rcases member with rfl | rfl
      · exact not_showsLine_margin 1 []
      · exact not_showsLine_margin 1 _

end Excerpt

end Report

namespace Diagnostic

open LineScript.Report

theorem splitLines_of_length_eq_one {source : String}
    (single : (Text.splitLines source.toList).length = 1) :
    Text.splitLines source.toList = [source.toList] := by
  obtain ⟨line, lines⟩ := List.length_eq_one_iff.mp single
  have whole := Text.flatten_splitLines source.toList
  rw [lines, List.flatten_singleton] at whole
  rw [lines, whole]

theorem excerpt_lines_of_single (diagnostic : Diagnostic) {source : String}
    (single : (Text.splitLines source.toList).length = 1) :
    (diagnostic.excerpt source.toList).lines = [source.toList] :=
  splitLines_of_length_eq_one single

section Report

variable {diagnostic : Diagnostic} {source : String}
  (single : (Text.splitLines source.toList).length = 1)
  (placed : hasPlace diagnostic.span source.length = true) (filename : Option String)

include single placed

theorem reportRows_of_single :
    diagnostic.reportRows source filename = diagnostic.headline ::
      (openingRows (filename.getD defaultFilename) (diagnostic.excerpt source.toList) ++
        (if source.length < diagnostic.span.stop then [margin 1]
          else (diagnostic.excerpt source.toList).inlineRows) ++
        noteRows (diagnostic.excerpt source.toList) diagnostic.help ++
        [closingRow (diagnostic.excerpt source.toList)]) := by
  have rows := Excerpt.rows_of_single (diagnostic.excerpt_lines_of_single single)
  rw [String.length_toList] at rows
  rw [reportRows, if_pos placed, rows]
  rfl

theorem framed_reportRows :
    Framed (filename.getD defaultFilename) diagnostic.span.start
      (diagnostic.reportRows source filename) := by
  have lines := diagnostic.excerpt_lines_of_single single
  rw [reportRows_of_single single placed filename, Excerpt.openingRows_of_single lines,
    Excerpt.closingRow_of_single lines]
  exact ⟨_, _, rfl⟩

theorem not_showsLine_of_overrun (overrun : source.length < diagnostic.span.stop) {row : Row}
    (member : row ∈ diagnostic.reportRows source filename) : ¬ ShowsLine row := by
  have lines := diagnostic.excerpt_lines_of_single single
  rw [reportRows_of_single single placed filename, if_pos overrun,
    Excerpt.openingRows_of_single lines, Excerpt.closingRow_of_single lines] at member
  have wide : "   " ≠ " " := by decide
  simp only [List.mem_cons, List.mem_append, List.not_mem_nil, or_false] at member
  rcases member with rfl | (((rfl | rfl) | rfl) | note) | rfl
  · exact not_showsLine_of_painted _ _ _
  · exact not_showsLine_of_indented wide _
  · exact not_showsLine_of_indented wide _
  · exact not_showsLine_margin 1 []
  · exact Excerpt.not_showsLine_noteRows lines note
  · exact not_showsLine_of_painted _ _ []

theorem sourceRow_mem_reportRows (within : diagnostic.span.stop ≤ source.length) :
    lineMargin 1 0 ++ textCells diagnostic.label diagnostic.span
      (Text.dropEndWhile Text.isBlank source.toList) ∈ diagnostic.reportRows source filename := by
  rw [reportRows_of_single single placed filename, if_neg (Nat.not_lt.mpr within)]
  have shown := Excerpt.lineRow_mem_inlineRows
    (diagnostic.excerpt_lines_of_single single)
  simp only [List.mem_cons, List.mem_append]
  exact .inr (.inl (.inl (.inr shown)))

end Report

/-! ## Diagnostics of a line -/

/-- A line ended early, and its last token ends where a text of some length does. -/
def EndsAtEdge (tokens : List Token) (length : Nat) (diagnostic : Diagnostic) : Prop :=
  (∃ position statement, diagnostic.kind = .unreadable none position statement) ∧
    ∃ last, tokens.getLast? = some last ∧ last.span.stop = length

section Points

variable {line : List Char} {tokens : List Token} {diagnostic : Diagnostic}
  (points : diagnostic.PointsInto line tokens)

include points

theorem PointsInto.stop_le : diagnostic.span.stop ≤ line.length + 1 := by
  obtain ⟨-, covers⟩ := points
  split at covers
  · exact Nat.le_succ_of_le covers.1
  · exact Nat.le_succ_of_le covers.1
  · exact Nat.le_succ_of_le covers.1
  · obtain ⟨-, last, -, inside, span⟩ := covers
    rw [span]
    exact Nat.succ_le_succ inside

theorem PointsInto.length_pos (placed : Token.Placed line tokens) : 0 < line.length := by
  obtain ⟨start, covers⟩ := points
  split at covers
  · exact Nat.lt_of_lt_of_le (Nat.zero_lt_of_lt start) covers.1
  · exact Nat.lt_of_lt_of_le (Nat.zero_lt_of_lt start) covers.1
  · exact Nat.lt_of_lt_of_le (Nat.zero_lt_of_lt start) covers.1
  · obtain ⟨-, last, ended, -⟩ := covers
    exact placed.length_pos (List.ne_nil_of_mem (List.mem_of_getLast? ended))

theorem PointsInto.hasPlace (placed : Token.Placed line tokens) {length : Nat}
    (longer : line.length ≤ length) : hasPlace diagnostic.span length = true := by
  have start := points.1
  have stop := points.stop_le
  have positive := points.length_pos placed
  simp only [Report.hasPlace, Bool.and_eq_true, bne_iff_ne, ne_eq, decide_eq_true_eq,
    Bool.not_eq_true', Bool.and_eq_false_iff, decide_eq_false_iff_not]
  omega

theorem PointsInto.overrun_iff {length : Nat} (longer : line.length ≤ length) :
    length < diagnostic.span.stop ↔ diagnostic.EndsAtEdge tokens length := by
  obtain ⟨-, covers⟩ := points
  -- Whatever is not about the end of the line lies within it.
  have inside (within : diagnostic.span.stop ≤ line.length)
      (found : ∀ position statement, diagnostic.kind ≠ .unreadable none position statement) :
      length < diagnostic.span.stop ↔ diagnostic.EndsAtEdge tokens length := by
    constructor
    · omega
    · rintro ⟨⟨position, statement, kind⟩, -⟩
      exact absurd kind (found position statement)
  split at covers
  next kind => exact inside covers.1 (by simp [kind])
  next kind => exact inside covers.1 (by simp [kind])
  next kind => exact inside covers.1 (by simp [kind])
  next position statement kind =>
    obtain ⟨-, last, ended, within, span⟩ := covers
    rw [span]
    change length < last.span.stop + 1 ↔ _
    constructor
    · intro overrun
      exact ⟨⟨position, statement, kind⟩, last, ended, by omega⟩
    · rintro ⟨-, again, endedAgain, edge⟩
      obtain rfl : last = again := Option.some.inj (ended.symm.trans endedAgain)
      omega

end Points

/-- Every diagnostic of a line points into it.  So its report on the line, or on the line with
more behind it, has a frame if that is one line of text; and it shows the text, unless the line
ended early and its last token ends with the text. -/
theorem points_into_line_and_framed {mode : Mode} {line : String} {scope : Scope}
    {diagnostic : Diagnostic} (member : diagnostic ∈ (interpret mode line scope).diagnostics) :
    let tokens := Token.ofLine mode line
    diagnostic.PointsInto line.toList tokens ∧
    ∀ (source : String) (filename : Option String), line.toList <+: source.toList →
      (Text.splitLines source.toList).length = 1 →
        let rows := diagnostic.reportRows source filename
        let missing := diagnostic.EndsAtEdge tokens source.length
        Framed (filename.getD defaultFilename) diagnostic.span.start rows ∧
        ((∀ row ∈ rows, ¬ ShowsLine row) ↔ missing) ∧
        (¬ missing → lineMargin 1 0 ++ textCells diagnostic.label diagnostic.span
          (Text.dropEndWhile Text.isBlank source.toList) ∈ rows) := by
  intro tokens
  have points := pointsInto_of_mem_diagnostics member
  refine ⟨points, fun source filename begins single => ?_⟩
  have longer : line.toList.length ≤ source.length := by
    rw [← String.length_toList (s := source)]
    exact begins.length_le
  have place := points.hasPlace (Token.placed_ofLine mode line) longer
  have overrun := points.overrun_iff longer
  have shown : ¬ diagnostic.EndsAtEdge tokens source.length →
      lineMargin 1 0 ++ textCells diagnostic.label diagnostic.span
        (Text.dropEndWhile Text.isBlank source.toList) ∈ diagnostic.reportRows source filename :=
    fun present => sourceRow_mem_reportRows single place filename
      (Nat.not_lt.mp (mt overrun.mp present))
  refine ⟨framed_reportRows single place filename, ⟨?_, ?_⟩, shown⟩
  · intro hidden
    by_contra present
    exact hidden _ (shown present) ⟨1, 0, _, rfl⟩
  · intro missing row there
    exact not_showsLine_of_overrun single place filename (overrun.mpr missing) there

theorem points_into_line_and_framed_at_end :
    let line := "let x ="
    let diagnostic := Refusal.unsupportedValue.atEnd ⟨1, 7⟩
    diagnostic ∈ (interpret .annotating line .empty).diagnostics ∧
    diagnostic.PointsInto line.toList (Token.ofLine .annotating line) ∧
    (∀ row ∈ diagnostic.reportRows line none, ¬ ShowsLine row) ∧
    ¬ ∀ row ∈ diagnostic.reportRows "let x =\n" none, ¬ ShowsLine row := by
  intro line diagnostic
  have refused : Program.ofTokens (Token.ofLine .annotating line) = .error diagnostic := by
    decide +kernel
  have member : diagnostic ∈ (interpret .annotating line .empty).diagnostics := by
    rw [interpret_of_error refused]
    exact List.mem_singleton.mpr rfl
  have ended : (Token.ofLine .annotating line).getLast? =
      some ⟨.assign, "=", 2, ⟨6, 7⟩, .void⟩ := by
    decide +kernel
  obtain ⟨points, reported⟩ := points_into_line_and_framed member
  obtain ⟨-, bare, -⟩ := reported line none List.prefix_rfl (by decide +kernel)
  obtain ⟨-, terminated, -⟩ := reported "let x =\n" none (by decide +kernel) (by decide +kernel)
  refine ⟨member, points, bare.mpr ⟨⟨none, 1, rfl⟩, _, ended, by decide⟩, ?_⟩
  intro hidden
  obtain ⟨-, last, endedAgain, edge⟩ := terminated.mp hidden
  obtain rfl := Option.some.inj (ended.symm.trans endedAgain)
  exact absurd edge (by decide)

end Diagnostic

end LineScript
