import LineScript.Proofs.Forms

/-!
# Pieces are maximal

Scanning stands at one place of a line after the other.  Wherever it stands, the run that it
touches is the last piece so far, and the text ahead does not go on with that run.  So every
piece of text has one of the six forms, and none could have been longer: no run touches
another, no operator is cut short, and a sign or a point stands alone only where it cannot
belong to a numeral.
-/

namespace LineScript.Piece

open LineScript.Text

/-! ## Where scanning stands -/

namespace Cut

/-- The characters that a cut passes over and takes. -/
def used (cut : Cut) (chars : List Char) : List Char := chars.take (cut.skipped + cut.length)

theorem used_append_left (cut : Cut) (chars : List Char) :
    cut.used chars ++ cut.left chars = chars := by
  rw [used, left, List.drop_drop, List.take_append_drop]

theorem length_taken {cut : Cut} {chars : List Char}
    (inside : cut.skipped + cut.length ≤ chars.length) :
    (cut.taken chars).length = cut.length := by
  rw [taken, List.length_take, List.length_drop]
  omega

theorem length_used {cut : Cut} {chars : List Char}
    (inside : cut.skipped + cut.length ≤ chars.length) :
    (cut.used chars).length = cut.skipped + cut.length :=
  List.length_take_of_le inside

end Cut

/-- Scanning a line comes to stand behind some pieces: it has passed some text, touches a run
or nothing, and has some text ahead. -/
inductive ComesTo (mode : Mode) (chars : List Char) :
    List Piece → (passed touching ahead : List Char) → Prop
  | start : ComesTo mode chars [] [] [] chars
  | blank {front : List Piece} {passed touching ahead : List Char} {c : Char}
      (blank : isBlank c = true) (reached : ComesTo mode chars front passed touching (c :: ahead)) :
      ComesTo mode chars front (passed ++ [c]) [] ahead
  | cut {front : List Piece} {passed touching ahead : List Char} {c : Char} {cut : Cut}
      (solid : isBlank c = false) (made : nextCut mode touching c ahead = cut)
      (reached : ComesTo mode chars front passed touching (c :: ahead)) :
      ComesTo mode chars (front ++ [cut.piece passed.length (c :: ahead)])
        (passed ++ cut.used (c :: ahead)) (cut.shape.touching (cut.taken (c :: ahead)))
        (cut.left (c :: ahead))

/-- What is known wherever scanning stands. -/
structure StandsAt (chars : List Char) (front : List Piece) (passed touching ahead : List Char) :
    Prop where
  line_eq : passed ++ ahead = chars
  behind : ∀ piece ∈ front, piece.span.stop ≤ passed.length
  touches : touching ≠ [] → EndsBefore touching ahead ∧ IsRun touching ∧
    ∃ run ∈ front, run.content = .text (String.ofList touching) ∧ run.span.stop = passed.length
  touched : ∀ run text, front.getLast? = some run → run.content = .text text →
    IsRun text.toList → run.span.stop = passed.length → text.toList = touching

theorem Shape.eq_run_of_touching_ne_nil {shape : Shape} {chars : List Char}
    (touches : shape.touching chars ≠ []) : shape = .run := by
  cases shape <;> simp_all [Shape.touching]

theorem CutAt.eq_run_of_isRun {mode : Mode} {touching after : List Char} {c : Char} {cut : Cut}
    (offered : CutAt mode touching c after cut) (solid : isBlank c = false)
    (untagged : ∀ type, cut.shape ≠ .typeTag type) (run : IsRun (cut.taken (c :: after))) :
    cut.shape = .run := by
  obtain ⟨form, fits, form_run⟩ := offered.exists_fits solid untagged
  rw [← form_run, Form.eq_ofText_of_fits fits, Form.ofText_run run]

theorem Cut.eq_taken_of_content {cut : Cut} {position : Nat} {chars : List Char} {text : String}
    (content : (cut.piece position chars).content = .text text) :
    (∀ type, cut.shape ≠ .typeTag type) ∧ cut.taken chars = text.toList := by
  have untagged : ∀ type, cut.shape ≠ .typeTag type := by
    intro type tag
    rw [Cut.piece, tag] at content
    contradiction
  rw [Cut.piece, Shape.content_of_no_tag untagged] at content
  obtain rfl := Content.text.inj content
  exact ⟨untagged, String.toList_ofList.symm⟩

section Standing

variable {mode : Mode} {chars passed touching ahead : List Char} {front : List Piece} {c : Char}

theorem StandsAt.blank (stands : StandsAt chars front passed touching (c :: ahead)) :
    StandsAt chars front (passed ++ [c]) [] ahead where
  line_eq := by rw [← stands.line_eq, List.append_assoc, List.singleton_append]
  behind piece member := by
    have bound := stands.behind piece member
    rw [List.length_append]
    omega
  touches nonempty := absurd rfl nonempty
  touched run text last _ _ stop := by
    have bound := stands.behind run (List.mem_of_getLast? last)
    rw [stop, List.length_append, List.length_singleton] at bound
    omega

theorem StandsAt.cut (stands : StandsAt chars front passed touching (c :: ahead))
    (solid : isBlank c = false) :
    let cut := nextCut mode touching c ahead
    StandsAt chars (front ++ [cut.piece passed.length (c :: ahead)])
      (passed ++ cut.used (c :: ahead)) (cut.shape.touching (cut.taken (c :: ahead)))
      (cut.left (c :: ahead)) := by
  intro cut
  have offered : CutAt mode touching c ahead cut := cutAt_nextCut mode touching c ahead
  have stop : (cut.piece passed.length (c :: ahead)).span.stop =
      (passed ++ cut.used (c :: ahead)).length := by
    rw [List.length_append, Cut.length_used (nextCut_le mode touching c ahead), ← Nat.add_assoc]
    rfl
  refine ⟨?_, ?_, fun nonempty => ?_, ?_⟩
  · rw [List.append_assoc, cut.used_append_left, stands.line_eq]
  · intro piece member
    rcases List.mem_append.mp member with earlier | last
    · have bound := stands.behind piece earlier
      rw [List.length_append]
      omega
    · rw [List.mem_singleton.mp last, stop]
  · have run := Shape.eq_run_of_touching_ne_nil nonempty
    have same : cut.shape.touching (cut.taken (c :: ahead)) = cut.taken (c :: ahead) := by
      rw [run]
      rfl
    rw [same]
    refine ⟨offered.endsBefore solid run, offered.isRun solid run, _, by simp, ?_, stop⟩
    rw [Cut.piece, run]
    rfl
  · intro run text last content isRun _
    rw [List.getLast?_concat] at last
    obtain rfl := Option.some.inj last
    obtain ⟨untagged, taken⟩ := Cut.eq_taken_of_content content
    rw [← taken] at isRun
    rw [offered.eq_run_of_isRun solid untagged isRun, ← taken]
    rfl

theorem ComesTo.standsAt (reached : ComesTo mode chars front passed touching ahead) :
    StandsAt chars front passed touching ahead := by
  induction reached with
  | start => exact ⟨rfl, by simp, by simp, by simp⟩
  | blank _ _ ih => exact ih.blank
  | cut solid made _ ih =>
      subst made
      exact ih.cut solid

/-- Scanning comes to stand where it cuts off a piece. -/
structure Arrives (mode : Mode) (chars : List Char) (front : List Piece) (piece : Piece)
    (passed touching : List Char) (c : Char) (after : List Char) : Prop where
  reached : ComesTo mode chars front passed touching (c :: after)
  solid : isBlank c = false
  piece_eq : piece = (nextCut mode touching c after).piece passed.length (c :: after)

/-- Scanning stands somewhere before each piece that it gives. -/
theorem ComesTo.exists_arrives (reached : ComesTo mode chars front passed touching ahead)
    {more back : List Piece} {piece : Piece}
    (split : scanFrom mode passed.length touching ahead = more ++ piece :: back) :
    ∃ passed touching c after, Arrives mode chars (front ++ more) piece passed touching c after ∧
      ((nextCut mode touching c after).left (c :: after) = [] → back = []) := by
  generalize position_eq : passed.length = position at split
  fun_induction scanFrom mode position touching ahead generalizing front passed more with
  | case1 => simp at split
  | case2 position touching c after blank ih =>
      exact ih (reached.blank blank) (by simp [position_eq]) split
  | case3 position touching c after solid cut ahead =>
      rename_i start taken ih
      have solid : isBlank c = false := by simpa using solid
      subst position_eq
      cases more with
      | nil =>
          obtain ⟨rfl, rest⟩ := List.cons.inj split
          refine ⟨passed, touching, c, after, ⟨by simpa using reached, solid, rfl⟩, fun left => ?_⟩
          have ended : ahead.drop cut.length = [] := left
          rw [← rest, ended, scanFrom]
      | cons first more =>
          obtain ⟨rfl, rest⟩ := List.cons.inj split
          have stop : (passed ++ cut.used (c :: after)).length = start + cut.length := by
            rw [List.length_append, Cut.length_used (nextCut_le mode touching c after),
              ← Nat.add_assoc]
          have later := ih (reached.cut solid rfl) stop rest
          rwa [List.append_assoc] at later

end Standing

/-! ## Longest operators -/

theorem length_le_of_operator?_eq_some {chars operator longer : List Char}
    (found : operator? chars = some operator) (member : longer ∈ operators)
    (fits : longer.isPrefixOf chars = true) : longer.length ≤ operator.length := by
  obtain ⟨-, longs, shorts, table, missed⟩ := List.find?_eq_some_iff_append.mp found
  have sorted : operators.Pairwise fun first second => second.length ≤ first.length := by decide
  rw [table] at member sorted
  rcases List.mem_append.mp member with long | rest
  · simpa [fits] using missed longer long
  rcases List.mem_cons.mp rest with rfl | short
  · exact Nat.le_refl _
  · exact (List.pairwise_cons.mp (List.pairwise_append.mp sorted).2.1).1 longer short

/-- No operator that fits is longer than the cut. -/
theorem length_le_nextCut (mode : Mode) (touching : List Char) {c : Char}
    {after operator : List Char} (member : operator ∈ operators)
    (fits : operator.isPrefixOf (c :: after) = true) :
    operator.length ≤ (nextCut mode touching c after).length := by
  have heads : ∀ operator ∈ operators, operator.head?.any
      (fun c => isQuote c || c == ';' || c == '-') = false := by decide
  have head : operator.head? = some c := by
    cases operator with
    | nil => exact absurd member (by decide)
    | cons d rest =>
        rw [List.isPrefixOf, Bool.and_eq_true, beq_iff_eq] at fits
        rw [List.head?_cons, fits.1]
  obtain ⟨⟨unquoted, other⟩, minus⟩ : (isQuote c = false ∧ c ≠ ';') ∧ c ≠ '-' := by
    simpa [head] using heads operator member
  cases found : operator? (c :: after) with
  | none => exact absurd fits (by simpa using List.find?_eq_none.mp found operator member)
  | some longest =>
      have cut : nextCut mode touching c after = ⟨.operator, 0, longest.length⟩ := by
        simp [nextCut, unquoted, other, minus, found]
      rw [cut]
      exact length_le_of_operator?_eq_some found member fits

/-! ## Pieces where they are cut off -/

/-- A piece is a text of a form. -/
def Has (piece : Piece) (form : Form) : Prop :=
  ∃ text, piece.content = .text text ∧ form.Fits text.toList

namespace Arrives

variable {mode : Mode} {chars passed touching after : List Char} {front : List Piece}
  {piece : Piece} {c : Char} {text : String}
  (arrives : Arrives mode chars front piece passed touching c after)

include arrives

theorem content_cases (content : piece.content = .text text) :
    (∀ type, (nextCut mode touching c after).shape ≠ .typeTag type) ∧
      (nextCut mode touching c after).taken (c :: after) = text.toList := by
  rw [arrives.piece_eq] at content
  exact Cut.eq_taken_of_content content

theorem existsUnique_form (content : piece.content = .text text) :
    ∃! form : Form, piece.Has form := by
  obtain ⟨untagged, taken⟩ := arrives.content_cases content
  obtain ⟨form, fits, -⟩ := (cutAt_nextCut mode touching c after).exists_fits arrives.solid untagged
  rw [taken] at fits
  refine ⟨form, ⟨text, content, fits⟩, ?_⟩
  rintro other ⟨same, again, fitsAgain⟩
  obtain rfl := Content.text.inj (content.symm.trans again)
  rw [Form.eq_ofText_of_fits fitsAgain, ← Form.eq_ofText_of_fits fits]

theorem span_stop :
    piece.span.stop = (passed ++ (nextCut mode touching c after).used (c :: after)).length := by
  rw [arrives.piece_eq, List.length_append, Cut.length_used (nextCut_le mode touching c after),
    ← Nat.add_assoc]
  rfl

theorem line_eq : passed ++ (nextCut mode touching c after).used (c :: after) ++
    (nextCut mode touching c after).left (c :: after) = chars := by
  rw [List.append_assoc, Cut.used_append_left, arrives.reached.standsAt.line_eq]

theorem getElem?_stop :
    chars[piece.span.stop]? = ((nextCut mode touching c after).left (c :: after)).head? := by
  rw [arrives.span_stop, ← arrives.line_eq, List.getElem?_append_right (Nat.le_refl _),
    Nat.sub_self, List.head?_eq_getElem?]

/-- A text is taken from where scanning stands. -/
theorem plain (content : piece.content = .text text) :
    piece.span.start = passed.length ∧ c :: after = text.toList ++
      (nextCut mode touching c after).left (c :: after) := by
  obtain ⟨untagged, taken⟩ := arrives.content_cases content
  rcases nextCut_cases mode touching c after with plain | ⟨type, tag, -⟩
  · constructor
    · rw [arrives.piece_eq, Cut.piece, plain.skipped, Nat.add_zero]
    · rw [← taken, Cut.taken, Cut.left, plain.skipped, List.drop_zero, List.take_append_drop]
  · rw [tag] at untagged
    exact absurd rfl (untagged type)

theorem unclosed_last (unclosed : piece.Has .unclosed) :
    (nextCut mode touching c after).left (c :: after) = [] ∧ piece.span.stop = chars.length := by
  obtain ⟨text, content, mark, rest, quote, free, spelled⟩ := unclosed
  have leaves : LeavesOpen c after := by
    apply @leavesOpen_of_unclosed mode touching c after passed.length
    rw [← arrives.piece_eq]
    exact ⟨mark, rest, by rw [content, ← spelled, String.ofList_toList], quote, free⟩
  have left := @left_eq_nil_of_leavesOpen mode touching c after leaves
  have whole := arrives.line_eq
  rw [left, List.append_nil] at whole
  exact ⟨left, by rw [arrives.span_stop, whole]⟩

/-- No run begins where another ends. -/
theorem not_run_of_touching (touches : touching ≠ []) : ¬ piece.Has .run := by
  rintro ⟨text, content, run⟩
  obtain ⟨untagged, taken⟩ := arrives.content_cases content
  have offered := cutAt_nextCut mode touching c after
  have shape := offered.eq_run_of_isRun arrives.solid untagged (taken ▸ run)
  obtain ⟨ends, -, -⟩ := arrives.reached.standsAt.touches touches
  have stops := (ends c after rfl).1
  generalize nextCut mode touching c after = cut at offered shape
  cases offered with
  | negative _ apart => exact touches apart
  | run unquoted other plain free =>
      simp [endsRun, arrives.solid, unquoted, other, plain, free] at stops
  | _ => simp at shape

theorem next_ne_equals (content : piece.content = .text text)
    (longer : text.toList ++ ['='] ∈ operators) : chars[piece.span.stop]? ≠ some '=' := by
  obtain ⟨-, taken⟩ := arrives.content_cases content
  obtain ⟨-, split⟩ := arrives.plain content
  rw [arrives.getElem?_stop]
  intro head
  obtain ⟨rest, left⟩ := List.head?_eq_some_iff.mp head
  have fits : (text.toList ++ ['=']).isPrefixOf (c :: after) = true := by
    rw [List.isPrefixOf_iff_prefix, split, left]
    exact ⟨rest, by simp⟩
  have length := Cut.length_taken (nextCut_le mode touching c after)
  have reach := length_le_nextCut mode touching longer fits
  rw [taken] at length
  rw [List.length_append, length, List.length_singleton] at reach
  omega

/-- What stands alone is the first character ahead. -/
theorem single {d : Char} (content : piece.content = .text (String.ofList [d])) :
    c = d ∧ (nextCut mode touching c after).taken (c :: after) = [d] ∧
      chars[piece.span.stop]? = after.head? := by
  obtain ⟨-, taken⟩ := arrives.content_cases content
  obtain ⟨-, split⟩ := arrives.plain content
  rw [String.toList_ofList] at taken split
  obtain ⟨first, rest⟩ := List.cons.inj split
  refine ⟨first, taken, ?_⟩
  rw [arrives.getElem?_stop]
  exact congrArg List.head? rest.symm

theorem touching_of_minus (content : piece.content = .text "-") {d : Char}
    (next : chars[piece.span.stop]? = some d) (digit : d.isDigit = true) : touching ≠ [] := by
  rintro rfl
  obtain ⟨rfl, taken, behind⟩ := arrives.single content
  obtain ⟨rest, rfl⟩ := List.head?_eq_some_iff.mp (behind.symm.trans next)
  have begins : beginsWithDigit (d :: rest) = true := digit
  have goesOn := beginsWithDigit_take_runLength begins true
  rw [nextCut_negative mode begins, Cut.taken, List.drop_zero, List.take_succ_cons] at taken
  rw [(List.cons.inj taken).2] at goesOn
  contradiction

theorem not_isInteger_touching_of_point (content : piece.content = .text ".") {d : Char}
    (next : chars[piece.span.stop]? = some d) (digit : d.isDigit = true) :
    ¬ IsInteger touching := by
  intro integer
  have nonempty : touching ≠ [] := by
    rintro rfl
    exact not_isInteger_nil integer
  obtain ⟨rfl, -, behind⟩ := arrives.single content
  obtain ⟨rest, rfl⟩ := List.head?_eq_some_iff.mp (behind.symm.trans next)
  obtain ⟨ends, -, -⟩ := arrives.reached.standsAt.touches nonempty
  exact (ends _ _ rfl).2 ⟨integer, rfl, digit⟩

theorem touching_eq {run : Piece} (last : front.getLast? = some run)
    (content : run.content = .text text) (isRun : IsRun text.toList)
    (touches : run.span.stop = passed.length) : text.toList = touching :=
  arrives.reached.standsAt.touched run text last content isRun touches

end Arrives

/-! ## Maximal pieces -/

/-- The texts among the pieces of a line have one form each, and none of them could have been
longer. -/
structure MaximallyCut (chars : List Char) (pieces : List Piece) : Prop where
  form : ∀ piece ∈ pieces, ∀ text, piece.content = .text text → ∃! form : Form, piece.Has form
  unclosed : ∀ front piece back, pieces = front ++ piece :: back → piece.Has .unclosed →
    back = [] ∧ piece.span.stop = chars.length
  apart : ∀ front first second back, pieces = front ++ first :: second :: back →
    first.Has .run → second.Has .run → first.span.stop < second.span.start
  longest : ∀ piece ∈ pieces, ∀ sign ∈ ["=", "!", "<", ">", "==", "!="],
    piece.content = .text sign → chars[piece.span.stop]? ≠ some '='
  minus : ∀ piece ∈ pieces, piece.content = .text "-" →
    ∀ d, chars[piece.span.stop]? = some d → d.isDigit = true →
      ∃ run ∈ pieces, run.Has .run ∧ run.span.stop = piece.span.start
  point : ∀ front run piece back text, pieces = front ++ run :: piece :: back →
    run.content = .text text → IsRun text.toList → IsInteger text.toList →
    run.span.stop = piece.span.start → piece.content = .text "." →
      ∀ d, chars[piece.span.stop]? = some d → d.isDigit = false

section Scan

variable {mode : Mode} {line : String}

theorem exists_arrives_of_split {front back : List Piece} {piece : Piece}
    (split : scan mode line = front ++ piece :: back) :
    ∃ passed touching c after, Arrives mode line.toList front piece passed touching c after ∧
      ((nextCut mode touching c after).left (c :: after) = [] → back = []) :=
  ComesTo.start.exists_arrives split

theorem exists_arrives_of_mem {piece : Piece} (member : piece ∈ scan mode line) :
    ∃ front passed touching c after, front ⊆ scan mode line ∧
      Arrives mode line.toList front piece passed touching c after := by
  obtain ⟨front, back, split⟩ := List.append_of_mem member
  obtain ⟨passed, touching, c, after, arrives, -⟩ := exists_arrives_of_split split
  exact ⟨front, passed, touching, c, after, by simp [split], arrives⟩

theorem scan_apart {front back : List Piece} {first second : Piece}
    (split : scan mode line = front ++ first :: second :: back) (run : first.Has .run)
    (another : second.Has .run) : first.span.stop < second.span.start := by
  have split : scan mode line = (front ++ [first]) ++ second :: back := by simpa using split
  obtain ⟨passed, touching, c, after, arrives, -⟩ := exists_arrives_of_split split
  obtain ⟨text, content, isRun⟩ := run
  have start : second.span.start = passed.length := by
    obtain ⟨other, spelled, -⟩ := another
    exact (arrives.plain spelled).1
  have bound := arrives.reached.standsAt.behind first (by simp)
  rw [start]
  refine Nat.lt_of_le_of_ne bound fun touches => ?_
  have same := arrives.touching_eq (by simp) content isRun touches
  exact arrives.not_run_of_touching (same ▸ isRun.nonempty) another

theorem scan_minus {piece : Piece} (member : piece ∈ scan mode line)
    (content : piece.content = .text "-") {d : Char}
    (next : line.toList[piece.span.stop]? = some d) (digit : d.isDigit = true) :
    ∃ run ∈ scan mode line, run.Has .run ∧ run.span.stop = piece.span.start := by
  obtain ⟨front, passed, touching, c, after, inside, arrives⟩ := exists_arrives_of_mem member
  obtain ⟨-, isRun, run, earlier, spelled, stop⟩ :=
    arrives.reached.standsAt.touches (arrives.touching_of_minus content next digit)
  refine ⟨run, inside earlier, ⟨_, spelled, ?_⟩, stop.trans (arrives.plain content).1.symm⟩
  rwa [String.toList_ofList]

theorem scan_point {front back : List Piece} {run piece : Piece} {text : String}
    (split : scan mode line = front ++ run :: piece :: back) (spelled : run.content = .text text)
    (isRun : IsRun text.toList) (integer : IsInteger text.toList)
    (touches : run.span.stop = piece.span.start) (content : piece.content = .text ".") {d : Char}
    (next : line.toList[piece.span.stop]? = some d) : d.isDigit = false := by
  have split : scan mode line = (front ++ [run]) ++ piece :: back := by simpa using split
  obtain ⟨passed, touching, c, after, arrives, -⟩ := exists_arrives_of_split split
  have stop := touches.trans (arrives.plain content).1
  have same := arrives.touching_eq (by simp) spelled isRun stop
  rw [Bool.eq_false_iff]
  intro digit
  exact arrives.not_isInteger_touching_of_point content next digit (same ▸ integer)

/-- Whatever the line, its pieces have the six forms and are maximal. -/
theorem scan_maximallyCut (mode : Mode) (line : String) : MaximallyCut line.toList (scan mode line) where
  form piece member text content := by
    obtain ⟨front, passed, touching, c, after, -, arrives⟩ := exists_arrives_of_mem member
    exact arrives.existsUnique_form content
  unclosed front piece back split unclosed := by
    obtain ⟨passed, touching, c, after, arrives, last⟩ := exists_arrives_of_split split
    obtain ⟨left, stop⟩ := arrives.unclosed_last unclosed
    exact ⟨last left, stop⟩
  apart _ _ _ _ split run another := scan_apart split run another
  longest piece member sign listed content := by
    have table : ∀ sign ∈ ["=", "!", "<", ">", "==", "!="], sign.toList ++ ['='] ∈ operators := by
      decide
    obtain ⟨front, passed, touching, c, after, -, arrives⟩ := exists_arrives_of_mem member
    exact arrives.next_ne_equals content (table sign listed)
  minus _ member content _ next digit := scan_minus member content next digit
  point _ _ _ _ _ split spelled isRun integer touches content _ next :=
    scan_point split spelled isRun integer touches content next

end Scan

/-- Only the minus sign that touches a run stands alone, and only the point behind a fraction. -/
example : (scan .annotating "1.2.3--5").map (·.content) =
    [.text "1.2", .text ".", .text "3", .text "-", .text "-5"] := by decide +kernel

end LineScript.Piece
