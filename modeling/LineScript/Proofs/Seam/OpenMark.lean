import LineScript.Proofs.Seam

/-!
# Marks left open across a blank

A quoted text goes on through blanks until its mark is closed.  Where the first of two texts
leaves a mark open, the second is read as its continuation, up to the first mark of the same
kind; behind that mark, scanning starts afresh.
-/

namespace LineScript.Piece

open LineScript.Text

theorem scanFrom_open (mode : Mode) (position : Nat) (touching : List Char) {mark : Char}
    {chars : List Char} (leaves : LeavesOpen mark chars) :
    scanFrom mode position touching (mark :: chars) =
      [⟨.text (String.ofList (mark :: chars)), ⟨position, position + (chars.length + 1)⟩⟩] := by
  rw [scanFrom_of_solid mode position touching (not_isBlank_of_isQuote leaves.1),
    piece_of_leavesOpen mode touching leaves, left_eq_nil_of_leavesOpen leaves, scanFrom]
  rfl

theorem LeavesOpen.append_blank {mark blank : Char} {rest chars : List Char}
    (leaves : LeavesOpen mark rest) (isBlank_blank : isBlank blank = true)
    (free : mark ∉ chars) : LeavesOpen mark (rest ++ blank :: chars) := by
  have other : mark ≠ blank := by
    rintro rfl
    simp [not_isBlank_of_isQuote leaves.1] at isBlank_blank
  refine ⟨leaves.1, ?_⟩
  simp [leaves.2, other, free]

theorem open_of_unclosed {mode : Mode} {start : Nat} {touched : List Char} {c mark : Char}
    {after rest : List Char} {span : Span} (solid : isBlank c = false)
    (alone : scanFrom mode start touched (c :: after) =
      [⟨.text (String.ofList (mark :: rest)), span⟩])
    (leaves : LeavesOpen mark rest) :
    mark = c ∧ rest = after ∧ span = ⟨start, start + (after.length + 1)⟩ := by
  have opened : LeavesOpen c after := by
    rw [scanFrom_of_solid mode start touched solid] at alone
    apply leavesOpen_of_unclosed start
    exact ⟨mark, rest, congrArg Piece.content (List.cons.inj alone).1, leaves⟩
  rw [scanFrom_open mode start touched opened] at alone
  simp only [List.cons.injEq, Piece.mk.injEq, Content.text.injEq, String.ofList_inj,
    and_true] at alone
  obtain ⟨⟨rfl, rfl⟩, rfl⟩ := alone
  exact ⟨rfl, rfl, rfl⟩

/-! ## Texts joined by a blank -/

section Joined

variable {mode : Mode} {first : String} {blank mark : Char} {earlier : List Piece}
  {rest : List Char} {span : Span} (isBlank_blank : isBlank blank = true)
  (scanned : scan mode first = earlier ++ [⟨.text (String.ofList (mark :: rest)), span⟩])
  (leaves : LeavesOpen mark rest)

include isBlank_blank scanned leaves

theorem scan_append_blank_resumes :
    span.start + (rest.length + 1) = first.length ∧
    ∃ touched, ∀ second : String,
      scan mode (first ++ String.singleton blank ++ second) =
        earlier ++ scanFrom mode span.start touched (mark :: rest ++ blank :: second.toList) := by
  obtain ⟨start, touched, c, after, solid, alone, reached, resumes⟩ :=
    scanFrom_append_resumes (barrier_of_isBlank isBlank_blank) earlier scanned
  obtain ⟨rfl, rfl, rfl⟩ := open_of_unclosed solid alone leaves
  refine ⟨?_, touched, fun second => ?_⟩
  · simpa [String.length_toList] using reached
  · simpa [scan] using resumes second.toList

theorem scan_append_blank_of_closing {second : String} {inside outside : List Char}
    (split : second.toList = inside ++ mark :: outside) (free : mark ∉ inside) :
    scan mode (first ++ String.singleton blank ++ second) =
      earlier ++
        ⟨.text (String.ofList (mark :: rest ++ blank :: inside ++ [mark])),
          ⟨span.start, first.length + 1 + (inside.length + 1)⟩⟩ ::
        (scan mode (String.ofList outside)).map
          (shift (first.length + 1 + (inside.length + 1))) := by
  obtain ⟨reached, touched, resumes⟩ := scan_append_blank_resumes isBlank_blank scanned leaves
  have unmarked := leaves.append_blank isBlank_blank free
  have closed := scanFrom_closed mode span.start touched leaves.1 unmarked.2 outside
  have finish : span.start + ((rest ++ blank :: inside).length + 2) =
      first.length + 1 + (inside.length + 1) := by
    simp only [List.length_append, List.length_cons]
    omega
  rw [finish] at closed
  rw [resumes, split, scan, String.toList_ofList, ← scanFrom_shift, Nat.zero_add]
  simpa using closed

theorem scan_append_blank_of_unclosed {second : String} (free : mark ∉ second.toList) :
    scan mode (first ++ String.singleton blank ++ second) =
      earlier ++
        [⟨.text (String.ofList (mark :: rest ++ blank :: second.toList)),
          ⟨span.start, first.length + 1 + second.length⟩⟩] := by
  obtain ⟨reached, touched, resumes⟩ := scan_append_blank_resumes isBlank_blank scanned leaves
  have unmarked := leaves.append_blank isBlank_blank free
  have finish : span.start + ((rest ++ blank :: second.toList).length + 1) =
      first.length + 1 + second.length := by
    simp only [List.length_append, List.length_cons, String.length_toList]
    omega
  rw [resumes, List.cons_append, scanFrom_open mode span.start touched unmarked, finish]

end Joined

/-- The pieces of two texts joined by a blank are the pieces of the first and those of the
second, moved behind it, unless the first leaves a mark open.  Then its last piece takes in
the blank and the second text up to the mark that closes it, and scanning starts afresh behind
that mark. -/
theorem scan_append_blank (mode : Mode) (first second : String) (blank : Char)
    (isBlank_blank : isBlank blank = true) :
    let whole := first ++ String.singleton blank ++ second
    ((∀ piece, (scan mode first).getLast? = some piece → ¬ piece.Unclosed) →
      scan mode whole =
        scan mode first ++ (scan mode second).map (shift (first.length + 1))) ∧
    ∀ earlier mark rest span,
      scan mode first = earlier ++ [⟨.text (String.ofList (mark :: rest)), span⟩] →
      LeavesOpen mark rest →
      (∀ inside outside, second.toList = inside ++ mark :: outside → mark ∉ inside →
        scan mode whole =
          earlier ++
            ⟨.text (String.ofList (mark :: rest ++ blank :: inside ++ [mark])),
              ⟨span.start, first.length + 1 + (inside.length + 1)⟩⟩ ::
            (scan mode (String.ofList outside)).map
              (shift (first.length + 1 + (inside.length + 1)))) ∧
      (mark ∉ second.toList →
        scan mode whole =
          earlier ++
            [⟨.text (String.ofList (mark :: rest ++ blank :: second.toList)),
              ⟨span.start, first.length + 1 + second.length⟩⟩]) := by
  intro whole
  refine ⟨fun closed => ?_, fun earlier mark rest span scanned leaves => ⟨?_, ?_⟩⟩
  · exact scan_append_blank_of_closed isBlank_blank mode first second closed
  · intro inside outside split free
    exact scan_append_blank_of_closing isBlank_blank scanned leaves split free
  · exact scan_append_blank_of_unclosed isBlank_blank scanned leaves

theorem scan_append_tab_within_mark :
    let first := "let x;int 'it"
    let second := "is' ;int"
    let earlier : List Piece :=
      [⟨.text "let", ⟨0, 3⟩⟩, ⟨.text "x", ⟨4, 5⟩⟩, ⟨.typeTag .int, ⟨6, 9⟩⟩]
    isBlank '\t' = true ∧
    scan .annotating first = earlier ++ [⟨.text "'it", ⟨10, 13⟩⟩] ∧
    LeavesOpen '\'' ['i', 't'] ∧
    scan .annotating (first ++ "\t" ++ second) =
      earlier ++ [⟨.text "'it\tis'", ⟨10, 17⟩⟩, ⟨.text ";", ⟨18, 19⟩⟩, ⟨.text "int", ⟨19, 22⟩⟩] := by
  intro first second earlier
  have tab : isBlank '\t' = true := by decide
  have scanned : scan .annotating first = earlier ++ [⟨.text "'it", ⟨10, 13⟩⟩] := by
    decide +kernel
  have leaves : LeavesOpen '\'' ['i', 't'] := ⟨by decide, by decide⟩
  obtain ⟨-, opened⟩ := scan_append_blank .annotating first second '\t' tab
  obtain ⟨closing, -⟩ := opened earlier '\'' ['i', 't'] ⟨10, 13⟩ scanned leaves
  have joined := closing "is".toList " ;int".toList (by decide) (by decide)
  refine ⟨tab, scanned, leaves, joined.trans ?_⟩
  decide +kernel

end LineScript.Piece
