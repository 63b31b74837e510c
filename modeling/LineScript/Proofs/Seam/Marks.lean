import LineScript.Proofs.Seam.OpenMark

/-!
# The mark that a line leaves open

A mark opens a quoted text, the next mark of the same kind closes it, and all else between
them is text.  So a line can be followed mark by mark, without cutting it into pieces.  Scanning
agrees: no piece but a quoted text holds a mark, and the mark that is open at the end begins the
last piece.
-/

namespace LineScript.Piece

open LineScript.Text

/-! ## Following the marks -/

/-- The mark that is open behind a character. -/
def markBehind (opened : Option Char) (c : Char) : Option Char :=
  match opened with
  | none => if isQuote c then some c else none
  | some mark => if c = mark then none else some mark

/-- The mark that some characters leave open. -/
def openMark (chars : List Char) : Option Char := chars.foldl markBehind none

theorem foldl_markBehind_of_unquoted {chars : List Char}
    (unquoted : ∀ c ∈ chars, isQuote c = false) : chars.foldl markBehind none = none := by
  induction chars with
  | nil => rfl
  | cons c rest ih =>
      obtain ⟨first, others⟩ := List.forall_mem_cons.mp unquoted
      rw [List.foldl_cons, markBehind, first]
      exact ih others

theorem foldl_markBehind_of_notMem {mark : Char} {chars : List Char} (free : mark ∉ chars) :
    chars.foldl markBehind (some mark) = some mark := by
  induction chars with
  | nil => rfl
  | cons c rest ih =>
      rw [List.mem_cons, not_or] at free
      rw [List.foldl_cons, markBehind, if_neg (Ne.symm free.1)]
      exact ih free.2

theorem openMark_of_leavesOpen {mark : Char} {rest : List Char} (leaves : LeavesOpen mark rest) :
    openMark (mark :: rest) = some mark := by
  rw [openMark, List.foldl_cons, markBehind, if_pos leaves.1]
  exact foldl_markBehind_of_notMem leaves.2

theorem openMark_closed {mark : Char} {chars : List Char} (quote : isQuote mark = true)
    (free : mark ∉ chars) : openMark (mark :: (chars ++ [mark])) = none := by
  rw [openMark, List.foldl_cons, markBehind, if_pos quote, List.foldl_append,
    foldl_markBehind_of_notMem free, List.foldl_cons, markBehind, if_pos rfl]
  rfl

theorem openMark_append_of_none {first : List Char} (closed : openMark first = none)
    (second : List Char) : openMark (first ++ second) = openMark second := by
  rw [openMark, List.foldl_append, show first.foldl markBehind none = none from closed]
  rfl

theorem openMark_of_blank {c : Char} (blank : isBlank c = true) (after : List Char) :
    openMark (c :: after) = openMark after := by
  have unquoted : isQuote c = false := by
    by_contra quote
    simp [not_isBlank_of_isQuote (by simpa using quote)] at blank
  rw [openMark, List.foldl_cons, markBehind, unquoted]
  rfl

/-! ## Pieces and marks -/

theorem isQuote_of_mem_run {whole : Bool} {chars : List Char} {c : Char}
    (member : c ∈ chars.take (runLength whole chars)) : isQuote c = false := by
  fun_induction runLength whole chars with
  | case1 => simp at member
  | case2 whole d after point ih =>
      rw [List.take_succ_cons, List.mem_cons] at member
      rcases member with rfl | member
      · simp only [Bool.and_eq_true, beq_iff_eq] at point
        rw [point.1.2]
        decide
      · exact ih member
  | case3 => simp at member
  | case4 whole d after point goesOn ih =>
      rw [List.take_succ_cons, List.mem_cons] at member
      rcases member with rfl | member
      · simp only [endsRun, Bool.or_eq_true, not_or, Bool.not_eq_true] at goesOn
        exact goesOn.1.1.1.2
      · exact ih member

theorem isQuote_of_mem_typeName {type : TypeName} {c : Char} (member : c ∈ type.name.toList) :
    isQuote c = false := by
  have continues := continuesIdentifier_of_mem (isIdentifier_typeName type) c member
  have foreign : c ∉ quoteMarks := notMem_of_continuesIdentifier continues (by decide)
  simpa [isQuote] using foreign

/-- A cut that leaves no mark open passes over whole quoted texts only. -/
theorem openMark_take_nextCut (mode : Mode) (touching : List Char) {c : Char} {after : List Char}
    (closed : ¬ LeavesOpen c after) :
    let cut := nextCut mode touching c after
    openMark ((c :: after).take (cut.skipped + cut.length)) = none := by
  intro cut
  have offered : CutAt mode touching c after cut := cutAt_nextCut mode touching c after
  clear_value cut
  have run : isQuote c = false → ∀ whole,
      openMark ((c :: after).take (0 + (runLength whole after + 1))) = none := by
    intro unquoted whole
    rw [Nat.zero_add, List.take_succ_cons]
    exact foldl_markBehind_of_unquoted
      (List.forall_mem_cons.mpr ⟨unquoted, fun _ member => isQuote_of_mem_run member⟩)
  cases offered with
  | quoted quote =>
      have member : c ∈ after := by
        by_contra missing
        exact closed ⟨quote, missing⟩
      obtain ⟨inside, outside, rfl, free⟩ := List.eq_append_cons_of_mem member
      have length : quotedLength c (inside ++ c :: outside) = inside.length + 1 := by
        rw [quotedLength_append_of_notMem free, quotedLength, if_pos rfl]
      rw [length, Nat.zero_add, List.take_succ_cons, List.take_length_add_append]
      exact openMark_closed quote free
  | separator semicolon =>
      subst semicolon
      simp [openMark, markBehind, isQuote, quoteMarks]
  | @typeTag type semicolon annotating named announced =>
      subst semicolon
      obtain ⟨behind, rfl⟩ := exists_append_of_announcedType? announced
      rw [Nat.add_comm, List.take_succ_cons, ← String.length_toList, List.take_left]
      exact foldl_markBehind_of_unquoted
        (List.forall_mem_cons.mpr ⟨by decide, fun _ member => isQuote_of_mem_typeName member⟩)
  | negative minus apart begins =>
      subst minus
      exact run (by decide) true
  | @operator operator found =>
      have unquoted : operators.all (fun sign => sign.all fun c => !isQuote c) = true := by decide
      obtain ⟨listed, behind, spelled⟩ := operator?_eq_some found
      rw [← spelled, Nat.zero_add, List.take_left]
      apply foldl_markBehind_of_unquoted
      intro d member
      simpa using List.all_eq_true.mp (List.all_eq_true.mp unquoted operator listed) d member
  | symbol symbol =>
      have unquoted : symbols.all (fun c => !isQuote c) = true := by decide
      have first : isQuote c = false := by
        simpa using List.all_eq_true.mp unquoted c (List.contains_iff_mem.mp symbol)
      simp [openMark, markBehind, first]
  | run unquoted other ordinary free => exact run unquoted c.isDigit

/-- Behind a cut that leaves no mark open, the marks are those of the rest. -/
theorem openMark_left_nextCut (mode : Mode) (touching : List Char) {c : Char} {after : List Char}
    (closed : ¬ LeavesOpen c after) :
    openMark (c :: after) = openMark ((nextCut mode touching c after).left (c :: after)) := by
  have passed := openMark_append_of_none (openMark_take_nextCut mode touching closed)
    ((c :: after).drop
      ((nextCut mode touching c after).skipped + (nextCut mode touching c after).length))
  rw [List.take_append_drop] at passed
  rw [passed, Cut.left, List.drop_drop]

/-- The mark that is open at the end of a text begins its last piece, which reaches to the end. -/
theorem scanFrom_of_openMark (mode : Mode) (position : Nat) (touching chars : List Char)
    {mark : Char} (opened : openMark chars = some mark) :
    ∃ earlier rest start, LeavesOpen mark rest ∧
      scanFrom mode position touching chars =
        earlier ++ [⟨.text (String.ofList (mark :: rest)), ⟨start, position + chars.length⟩⟩] := by
  fun_induction scanFrom mode position touching chars with
  | case1 => contradiction
  | case2 position touching c after blank ih =>
      obtain ⟨earlier, rest, start, leaves, scanned⟩ :=
        ih (openMark_of_blank blank after ▸ opened)
      refine ⟨earlier, rest, start, leaves, ?_⟩
      rw [scanned, List.length_cons, Nat.add_assoc, Nat.add_comm 1]
  | case3 position touching c after notBlank cut ahead start taken ih =>
      have solid : isBlank c = false := by simpa using notBlank
      by_cases leaves : LeavesOpen c after
      · rw [openMark_of_leavesOpen leaves] at opened
        obtain rfl := Option.some.inj opened
        refine ⟨[], after, position, leaves, ?_⟩
        exact (scanFrom_of_solid mode position touching solid after).symm.trans
          (scanFrom_open mode position touching leaves)
      · rw [openMark_left_nextCut mode touching leaves] at opened
        obtain ⟨earlier, rest, begun, leaves, scanned⟩ := ih opened
        have finish := Cut.stop_add_length_left (nextCut_le mode touching c after) position
        refine ⟨⟨cut.shape.content taken, ⟨start, start + cut.length⟩⟩ :: earlier, rest, begun,
          leaves, ?_⟩
        rw [scanned, ← finish]
        rfl

/-- A text that leaves no mark open has no piece without its closing mark. -/
theorem not_unclosed_of_openMark (mode : Mode) (position : Nat) (touching chars : List Char)
    (closed : openMark chars = none) {piece : Piece}
    (member : piece ∈ scanFrom mode position touching chars) : ¬ piece.Unclosed := by
  fun_induction scanFrom mode position touching chars with
  | case1 => simp at member
  | case2 position touching c after blank ih =>
      exact ih (openMark_of_blank blank after ▸ closed) member
  | case3 position touching c after notBlank cut ahead start taken ih =>
      have goesOn : ¬ LeavesOpen c after := by
        intro leaves
        rw [openMark_of_leavesOpen leaves] at closed
        contradiction
      rcases List.mem_cons.mp member with rfl | member
      · exact fun unclosed => goesOn (leavesOpen_of_unclosed start unclosed)
      · exact ih (openMark_left_nextCut mode touching goesOn ▸ closed) member

end LineScript.Piece
