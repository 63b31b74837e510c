import LineScript.Proofs.Word
import Mathlib.Data.List.Find
import Mathlib.Tactic.ByContra

/-!
# Scanning across a barrier

No look-ahead passes a blank or a semicolon, but for the word behind a semicolon, which only
a blank ends.  So what stands behind such a character can change no piece before it except
the last, and the last only if it is a quoted text without its closing mark, or a type tag
that reaches to a semicolon.  Where two texts are joined by a blank and the first leaves no
mark open, the pieces of the first are followed by those of the second.
-/

namespace LineScript.Piece

open LineScript.Text

/-! ## Look-ahead up to a barrier -/

/-- A character that is no digit, belongs to no operator and to no type word, and ends every
run. -/
structure Barrier (stop : Char) : Prop where
  digitless : stop.isDigit = false
  signless : ∀ operator ∈ operators, stop ∉ operator
  wordless : ∀ type : TypeName, stop ∉ type.name.toList
  ends : ∀ after, EndsRuns (stop :: after)

theorem barrier_of_isBlank {blank : Char} (isBlank_blank : isBlank blank = true) :
    Barrier blank := by
  have solid : ∀ operator ∈ operators, operator.any isBlank = false := by decide
  refine ⟨?_, ?_, ?_, endsRuns_blank isBlank_blank⟩
  · by_contra digit
    have continues := continuesIdentifier_of_isDigit (by simpa using digit)
    simp [not_isBlank_of_continuesIdentifier continues] at isBlank_blank
  · intro operator member inside
    have clash := List.any_eq_true.mpr ⟨blank, inside, isBlank_blank⟩
    rw [solid operator member] at clash
    contradiction
  · intro type inside
    simp [not_isBlank_of_mem_typeName inside] at isBlank_blank

theorem barrier_semicolon : Barrier ';' := by
  refine ⟨by decide, by decide, ?_, endsRuns_semicolon⟩
  intro type
  cases type <;> decide

theorem isPrefixOf_append_cons {operator : List Char} {stop : Char} (free : stop ∉ operator)
    (chars second : List Char) :
    operator.isPrefixOf (chars ++ stop :: second) = operator.isPrefixOf chars := by
  induction chars generalizing operator with
  | nil =>
      cases operator with
      | nil => rfl
      | cons c rest =>
          have different : c ≠ stop := by
            rintro rfl
            exact free List.mem_cons_self
          simp [List.isPrefixOf, different]
  | cons d after ih =>
      cases operator with
      | nil => rfl
      | cons c rest =>
          rw [List.cons_append, List.isPrefixOf, List.isPrefixOf,
            ih fun member => free (List.mem_cons_of_mem _ member)]

section Barrier

variable {stop : Char} (barrier : Barrier stop) (second : List Char)

include barrier

theorem beginsWithDigit_append_barrier (chars : List Char) :
    beginsWithDigit (chars ++ stop :: second) = beginsWithDigit chars := by
  cases chars with
  | nil => exact barrier.digitless
  | cons c after => rfl

theorem operator?_append_barrier (chars : List Char) :
    operator? (chars ++ stop :: second) = operator? chars := by
  unfold operator?
  apply List.find?_congr
  intro operator member
  exact isPrefixOf_append_cons (barrier.signless operator member) chars second

theorem runLength_append_barrier (whole : Bool) (chars : List Char) :
    runLength whole (chars ++ stop :: second) = runLength whole chars := by
  induction chars generalizing whole with
  | nil => exact barrier.ends second whole
  | cons c after ih =>
      have ends : endsRun c (after ++ stop :: second) = endsRun c after := by
        have operator := operator?_append_barrier barrier second (c :: after)
        rw [endsRun, ← List.cons_append, operator, endsRun]
      rw [List.cons_append, runLength, runLength, beginsWithDigit_append_barrier barrier, ends,
        ih, ih]

/-- Only a blank ends the word of a type, so another barrier leaves it alone unless the word
reaches up to the barrier. -/
theorem announcedType?_append_barrier (chars : List Char)
    (kept : isBlank stop = true ∨
      ∀ type, announcedType? chars = some type → chars ≠ type.name.toList) :
    announcedType? (chars ++ stop :: second) = announcedType? chars := by
  by_cases reached : (chars.takeWhile fun c => !isBlank c) = chars
  · have word : (chars ++ stop :: second).takeWhile (fun c => !isBlank c) =
        chars ++ (stop :: second).takeWhile fun c => !isBlank c := by
      rw [List.takeWhile_append, if_pos (congrArg List.length reached)]
    cases blank : isBlank stop with
    | true => rw [announcedType?, announcedType?, word, reached]; simp [blank]
    | false =>
        have absent : announcedType? chars = none := by
          by_contra found
          obtain ⟨type, announced⟩ := Option.ne_none_iff_exists'.mp found
          have spelled := (announcedType?_eq_some_iff.mp announced).2
          exact (kept.resolve_left (by simp [blank])) type announced (reached ▸ spelled.symm)
        rw [absent, Option.eq_none_iff_forall_ne_some]
        intro type announced
        have spelled := (announcedType?_eq_some_iff.mp announced).2
        apply barrier.wordless type
        rw [spelled, word]
        simp [blank]
  · have short : (chars.takeWhile fun c => !isBlank c).length ≠ chars.length := fun same =>
      reached ((List.takeWhile_prefix _).eq_of_length same)
    rw [announcedType?, announcedType?, List.takeWhile_append, if_neg short]

end Barrier

theorem quotedLength_append {mark : Char} {chars : List Char} (closed : mark ∈ chars)
    (second : List Char) : quotedLength mark (chars ++ second) = quotedLength mark chars := by
  induction chars with
  | nil => contradiction
  | cons c after ih =>
      rw [List.cons_append, quotedLength, quotedLength]
      split
      · rfl
      next other =>
        rw [ih]
        exact (List.mem_cons.mp closed).resolve_left (Ne.symm other)

/-! ## Cuts -/

/-- A mark that nothing behind it closes. -/
def LeavesOpen (mark : Char) (after : List Char) : Prop := isQuote mark = true ∧ mark ∉ after

theorem mem_take_quotedLength {mark : Char} {chars : List Char} (member : mark ∈ chars) :
    mark ∈ chars.take (quotedLength mark chars) := by
  induction chars with
  | nil => contradiction
  | cons c after ih =>
      rw [quotedLength]
      split
      next same => simp [same]
      next other =>
        rw [List.take_succ_cons]
        exact List.mem_cons_of_mem _ (ih ((List.mem_cons.mp member).resolve_left (Ne.symm other)))

theorem separatorCut_append_barrier {stop : Char} (barrier : Barrier stop) (second : List Char)
    (mode : Mode) (touching after : List Char)
    (kept : isBlank stop = true ∨
      ∀ type, (separatorCut mode touching after).shape = .typeTag type →
        after ≠ type.name.toList) :
    separatorCut mode touching (after ++ stop :: second) = separatorCut mode touching after := by
  cases mode with
  | terminating => rfl
  | annotating =>
      cases named : isIdentifier touching with
      | false => simp [separatorCut, named]
      | true =>
          have same : announcedType? (after ++ stop :: second) = announcedType? after := by
            apply announcedType?_append_barrier barrier
            refine kept.imp_right fun kept type announced => kept type ?_
            simp [separatorCut, named, announced]
          simp only [separatorCut, named, same]

theorem nextCut_append_barrier {stop : Char} (barrier : Barrier stop) (second : List Char)
    (mode : Mode) (touching : List Char) {c : Char} {after : List Char}
    (closed : ¬ LeavesOpen c after)
    (kept : isBlank stop = true ∨
      ∀ type, (nextCut mode touching c after).shape = .typeTag type → after ≠ type.name.toList) :
    nextCut mode touching c (after ++ stop :: second) = nextCut mode touching c after := by
  have operator := operator?_append_barrier barrier second (c :: after)
  rw [List.cons_append] at operator
  unfold nextCut at kept ⊢
  split
  next quote =>
    have member : c ∈ after := by
      by_contra missing
      exact closed ⟨quote, missing⟩
    rw [quotedLength_append member]
  next unquoted =>
    rw [if_neg unquoted] at kept
    split
    next semicolon =>
      rw [if_pos semicolon] at kept
      exact separatorCut_append_barrier barrier second mode touching after kept
    · rw [beginsWithDigit_append_barrier barrier, operator, runLength_append_barrier barrier,
        runLength_append_barrier barrier]

theorem nextCut_le (mode : Mode) (touching : List Char) (c : Char) (after : List Char) :
    (nextCut mode touching c after).skipped + (nextCut mode touching c after).length ≤
      (c :: after).length := by
  rcases nextCut_cases mode touching c after with plain | ⟨type, cut, -, -, -, announced⟩
  · have bound := plain.length_le
    rw [plain.skipped]
    omega
  · obtain ⟨behind, rfl⟩ := exists_append_of_announcedType? announced
    simp only [cut, List.length_cons, List.length_append, String.length_toList]
    omega

theorem nextCut_of_leavesOpen (mode : Mode) (touching : List Char) {c : Char} {after : List Char}
    (leaves : LeavesOpen c after) :
    nextCut mode touching c after = ⟨.quoted, 0, (c :: after).length⟩ := by
  rw [nextCut_of_isQuote mode touching leaves.1, quotedLength_of_notMem leaves.2, List.length_cons]

namespace Cut

/-- The characters that a cut takes off a text. -/
def taken (cut : Cut) (chars : List Char) : List Char := (chars.drop cut.skipped).take cut.length

/-- The characters behind those that a cut takes. -/
def left (cut : Cut) (chars : List Char) : List Char := (chars.drop cut.skipped).drop cut.length

/-- Where a cut ends that is made at a position. -/
def stop (cut : Cut) (position : Nat) : Nat := position + cut.skipped + cut.length

def piece (cut : Cut) (position : Nat) (chars : List Char) : Piece :=
  ⟨cut.shape.content (cut.taken chars), ⟨position + cut.skipped, cut.stop position⟩⟩

variable {cut : Cut} {chars : List Char}

theorem taken_append (inside : cut.skipped + cut.length ≤ chars.length) (more : List Char) :
    cut.taken (chars ++ more) = cut.taken chars := by
  have bound : cut.length ≤ (chars.drop cut.skipped).length := by
    rw [List.length_drop]
    omega
  rw [taken, taken, List.drop_append_of_le_length (by omega), List.take_append_of_le_length bound]

theorem left_append (inside : cut.skipped + cut.length ≤ chars.length) (more : List Char) :
    cut.left (chars ++ more) = cut.left chars ++ more := by
  have bound : cut.length ≤ (chars.drop cut.skipped).length := by
    rw [List.length_drop]
    omega
  rw [left, left, List.drop_append_of_le_length (by omega), List.drop_append_of_le_length bound]

theorem stop_add_length_left (inside : cut.skipped + cut.length ≤ chars.length)
    (position : Nat) : cut.stop position + (cut.left chars).length = position + chars.length := by
  rw [stop, left, List.length_drop, List.length_drop]
  omega

end Cut

/-! ## Texts -/

theorem scanFrom_of_solid (mode : Mode) (position : Nat) (touching : List Char) {c : Char}
    (solid : isBlank c = false) (after : List Char) :
    let cut := nextCut mode touching c after
    scanFrom mode position touching (c :: after) =
      cut.piece position (c :: after) ::
        scanFrom mode (cut.stop position) (cut.shape.touching (cut.taken (c :: after)))
          (cut.left (c :: after)) := by
  rw [scanFrom, if_neg (by simp [solid])]
  rfl

/-- A cut that stays the same with more text behind it leaves that text behind. -/
theorem scanFrom_append_of_same_cut {mode : Mode} {touching : List Char} {c : Char}
    {after more : List Char} (solid : isBlank c = false)
    (same : nextCut mode touching c (after ++ more) = nextCut mode touching c after)
    (position : Nat) :
    let cut := nextCut mode touching c after
    scanFrom mode position touching (c :: after ++ more) =
      cut.piece position (c :: after) ::
        scanFrom mode (cut.stop position) (cut.shape.touching (cut.taken (c :: after)))
          (cut.left (c :: after) ++ more) := by
  have inside := nextCut_le mode touching c after
  have scanned := scanFrom_of_solid mode position touching solid (after ++ more)
  simp only [same, ← List.cons_append, Cut.left_append inside, Cut.piece,
    Cut.taken_append inside] at scanned
  exact scanned

/-- A quoted text without its closing mark. -/
def Unclosed (piece : Piece) : Prop :=
  ∃ mark rest, piece.content = .text (String.ofList (mark :: rest)) ∧ LeavesOpen mark rest

theorem left_eq_nil_of_leavesOpen {mode : Mode} {touching : List Char} {c : Char}
    {after : List Char} (leaves : LeavesOpen c after) :
    (nextCut mode touching c after).left (c :: after) = [] := by
  simp [nextCut_of_leavesOpen mode touching leaves, Cut.left]

theorem leavesOpen_of_taken {mode : Mode} {touching : List Char} {c : Char}
    {after chars : List Char}
    (taken : (nextCut mode touching c after).taken (c :: after) = c :: chars)
    (leaves : LeavesOpen c chars) : LeavesOpen c after := by
  refine ⟨leaves.1, fun closed => leaves.2 ?_⟩
  rw [nextCut_of_isQuote mode touching leaves.1] at taken
  rw [← (List.cons.inj taken).2]
  exact mem_take_quotedLength closed

/-- A piece that is unclosed was cut at a mark that nothing closes. -/
theorem leavesOpen_of_unclosed {mode : Mode} {touching : List Char} {c : Char}
    {after : List Char} (position : Nat)
    (unclosed : ((nextCut mode touching c after).piece position (c :: after)).Unclosed) :
    LeavesOpen c after := by
  obtain ⟨mark, rest, content, leaves⟩ := unclosed
  have positive := nextCut_length_pos mode touching c after
  rcases nextCut_cases mode touching c after with plain | ⟨type, tag, -⟩
  · have spelled : (nextCut mode touching c after).taken (c :: after) = mark :: rest := by
      rwa [Cut.piece, Shape.content_of_no_tag plain.no_tag, Content.text.injEq,
        String.ofList_inj] at content
    obtain ⟨length, more⟩ := Nat.exists_eq_add_of_lt positive
    have first : mark = c := by
      rw [Cut.taken, plain.skipped, more, Nat.zero_add, List.drop_zero,
        List.take_succ_cons] at spelled
      exact (List.cons.inj spelled).1.symm
    subst first
    exact leavesOpen_of_taken spelled leaves
  · rw [tag] at content
    contradiction

theorem left_eq_nil_of_typeTag {mode : Mode} {touching : List Char} {c : Char}
    {after : List Char} {type : TypeName}
    (tag : (nextCut mode touching c after).shape = .typeTag type)
    (reached : after = type.name.toList) :
    (nextCut mode touching c after).left (c :: after) = [] := by
  rcases nextCut_cases mode touching c after with plain | ⟨other, cut, -⟩
  · exact absurd tag (plain.no_tag type)
  · rw [cut] at tag ⊢
    obtain rfl := Shape.typeTag.inj tag
    simp [Cut.left, reached, String.length_toList]

/-- Text behind a barrier changes no cut that leaves something before the barrier. -/
theorem nextCut_append_of_left {stop : Char} (barrier : Barrier stop) (second : List Char)
    {mode : Mode} {touching : List Char} {c : Char} {after : List Char}
    (leaves : (nextCut mode touching c after).left (c :: after) ≠ []) :
    nextCut mode touching c (after ++ stop :: second) = nextCut mode touching c after := by
  apply nextCut_append_barrier barrier
  · exact fun opened => leaves (left_eq_nil_of_leavesOpen opened)
  · exact .inr fun type tag reached => leaves (left_eq_nil_of_typeTag tag reached)

/-- A text without pieces is blank, so scanning goes on behind it. -/
theorem scanFrom_append_of_eq_nil {mode : Mode} {position : Nat} {touching first : List Char}
    (empty : scanFrom mode position touching first = []) (more : List Char) :
    ∃ touched, scanFrom mode position touching (first ++ more) =
      scanFrom mode (position + first.length) touched more := by
  fun_induction scanFrom mode position touching first with
  | case1 position touching => exact ⟨touching, rfl⟩
  | case2 position touching c after blank ih =>
      obtain ⟨touched, scanned⟩ := ih empty
      refine ⟨touched, ?_⟩
      rw [List.cons_append, scanFrom, if_pos blank, scanned, List.length_cons]
      congr 1
      omega
  | case3 => contradiction

/-- Only the last piece of a text can be changed by what stands behind a barrier: scanning
comes to the place where it is cut, with the same run before it. -/
theorem scanFrom_append_resumes {stop : Char} (barrier : Barrier stop) {mode : Mode}
    {position : Nat} {touching first : List Char} (earlier : List Piece) {last : Piece}
    (scanned : scanFrom mode position touching first = earlier ++ [last]) :
    ∃ start touched c after, isBlank c = false ∧
      scanFrom mode start touched (c :: after) = [last] ∧
      start + (c :: after).length = position + first.length ∧
      ∀ second, scanFrom mode position touching (first ++ stop :: second) =
        earlier ++ scanFrom mode start touched (c :: after ++ stop :: second) := by
  fun_induction scanFrom mode position touching first generalizing earlier with
  | case1 => simp at scanned
  | case2 position touching c after blank ih =>
      obtain ⟨start, touched, d, rest, solid, alone, reached, resumes⟩ := ih earlier scanned
      refine ⟨start, touched, d, rest, solid, alone, ?_, fun second => ?_⟩
      · rw [reached, List.length_cons]
        omega
      · rw [List.cons_append, scanFrom, if_pos blank, resumes]
  | case3 position touching c after notBlank cut ahead start taken ih =>
      have solid : isBlank c = false := by simpa using notBlank
      cases earlier with
      | nil =>
          exact ⟨position, touching, c, after, solid,
            (scanFrom_of_solid mode position touching solid after).trans scanned, rfl, fun _ => rfl⟩
      | cons piece earlier =>
          obtain ⟨rfl, later⟩ := List.cons.inj scanned
          have leaves : (nextCut mode touching c after).left (c :: after) ≠ [] := by
            intro none
            rw [show ahead.drop cut.length = [] from none, scanFrom] at later
            simp at later
          obtain ⟨start, touched, d, rest, solid', alone, reached, resumes⟩ := ih earlier later
          refine ⟨start, touched, d, rest, solid', alone, ?_, fun second => ?_⟩
          · rw [reached]
            exact Cut.stop_add_length_left (nextCut_le mode touching c after) position
          · rw [scanFrom_append_of_same_cut solid (nextCut_append_of_left barrier second leaves)]
            exact congrArg _ (resumes second)

/-- A last piece that a character behind it can change: a mark is open, or a type tag
reaches up to a character that is no blank. -/
def Loose (stop : Char) (finish : Nat) (piece : Piece) : Prop :=
  piece.Unclosed ∨
    isBlank stop = false ∧ ∃ type start, piece = ⟨.typeTag type, ⟨start, finish⟩⟩

theorem piece_of_leavesOpen (mode : Mode) (touching : List Char) {c : Char} {after : List Char}
    (leaves : LeavesOpen c after) (position : Nat) :
    (nextCut mode touching c after).piece position (c :: after) =
      ⟨.text (String.ofList (c :: after)), ⟨position, position + (c :: after).length⟩⟩ := by
  simp [nextCut_of_leavesOpen mode touching leaves, Cut.piece, Cut.taken, Cut.stop, Shape.content]

theorem piece_of_typeTag {mode : Mode} {touching : List Char} {c : Char} {after : List Char}
    {type : TypeName} (tag : (nextCut mode touching c after).shape = .typeTag type)
    (position : Nat) :
    (nextCut mode touching c after).piece position (c :: after) =
      ⟨.typeTag type, ⟨position + 1, position + 1 + type.name.length⟩⟩ := by
  rcases nextCut_cases mode touching c after with plain | ⟨other, cut, -⟩
  · exact absurd tag (plain.no_tag type)
  · rw [cut] at tag ⊢
    obtain rfl := Shape.typeTag.inj tag
    rfl

/-- Where the last piece is firm and what stands behind the barrier does not depend on the
run before it, the pieces of the two parts follow each other. -/
theorem scanFrom_append_barrier {stop : Char} (barrier : Barrier stop) {mode : Mode}
    {second : List Char}
    (detached : ∀ position touching, scanFrom mode position touching (stop :: second) =
      scanFrom mode position [] (stop :: second))
    (position : Nat) (touching first : List Char)
    (firm : ∀ piece, (scanFrom mode position touching first).getLast? = some piece →
      ¬ piece.Loose stop (position + first.length)) :
    scanFrom mode position touching (first ++ stop :: second) =
      scanFrom mode position touching first ++
        scanFrom mode (position + first.length) [] (stop :: second) := by
  rcases List.eq_nil_or_concat (scanFrom mode position touching first) with
    empty | ⟨earlier, last, scanned⟩
  · obtain ⟨touched, more⟩ := scanFrom_append_of_eq_nil empty (stop :: second)
    rw [more, empty, detached, List.nil_append]
  · rw [List.concat_eq_append] at scanned
    obtain ⟨start, touched, c, after, solid, alone, reached, resumes⟩ :=
      scanFrom_append_resumes barrier earlier scanned
    rw [scanFrom_of_solid mode start touched solid] at alone
    obtain ⟨rfl, done⟩ := List.cons.inj alone
    have firm := firm _ (by rw [scanned, List.getLast?_concat])
    have same : nextCut mode touched c (after ++ stop :: second) =
        nextCut mode touched c after := by
      apply nextCut_append_barrier barrier
      · intro leaves
        rw [piece_of_leavesOpen mode touched leaves] at firm
        exact firm (.inl ⟨c, after, rfl, leaves⟩)
      · cases blank : isBlank stop with
        | true => exact .inl rfl
        | false =>
            refine .inr fun type tag spelled => firm (.inr ⟨blank, type, start + 1, ?_⟩)
            rw [piece_of_typeTag tag, ← reached, spelled]
            simp only [List.length_cons, String.length_toList]
            congr 2
            omega
    obtain ⟨touched', more⟩ := scanFrom_append_of_eq_nil done (stop :: second)
    have finish := Cut.stop_add_length_left (nextCut_le mode touched c after) start
    rw [resumes, scanFrom_append_of_same_cut solid same, more, finish, reached, detached, scanned,
      List.append_assoc, List.singleton_append]

theorem scanFrom_append_blank {blank : Char} (isBlank_blank : isBlank blank = true)
    (mode : Mode) (position : Nat) (touching first second : List Char)
    (closed : ∀ piece, (scanFrom mode position touching first).getLast? = some piece →
      ¬ piece.Unclosed) :
    scanFrom mode position touching (first ++ blank :: second) =
      scanFrom mode position touching first ++
        scanFrom mode (position + first.length + 1) [] second := by
  have passed : ∀ position touching, scanFrom mode position touching (blank :: second) =
      scanFrom mode (position + 1) [] second := fun position touching => by
    rw [scanFrom, if_pos isBlank_blank]
  rw [scanFrom_append_barrier (barrier_of_isBlank isBlank_blank), passed]
  · intro position touching
    rw [passed, passed]
  · rintro piece last (unclosed | ⟨solid, -⟩)
    · exact closed piece last unclosed
    · rw [isBlank_blank] at solid
      contradiction

theorem scanFrom_shift (mode : Mode) (position distance : Nat) (touching chars : List Char) :
    scanFrom mode (position + distance) touching chars =
      (scanFrom mode position touching chars).map (shift distance) := by
  fun_induction scanFrom mode position touching chars with
  | case1 position touching =>
      rw [scanFrom]
      rfl
  | case2 position touching c after blank ih =>
      rw [scanFrom, if_pos blank, ← ih]
      congr 1
      omega
  | case3 position touching c after solid cut ahead start taken ih =>
      have moved : position + distance + cut.skipped = start + distance := by
        simp only [start]
        omega
      have behind : start + distance + cut.length = start + cut.length + distance := by omega
      rw [scanFrom, if_neg solid, List.map_cons, ← ih]
      simp only [shift, Span.shift]
      rw [moved, behind]

theorem scan_append_blank_of_closed {blank : Char} (isBlank_blank : isBlank blank = true)
    (mode : Mode) (first second : String)
    (closed : ∀ piece, (scan mode first).getLast? = some piece → ¬ piece.Unclosed) :
    scan mode (first ++ String.singleton blank ++ second) =
      scan mode first ++ (scan mode second).map (shift (first.length + 1)) := by
  have split := scanFrom_append_blank isBlank_blank mode 0 [] first.toList second.toList closed
  rw [String.length_toList] at split
  rw [scan, scan, scan, ← scanFrom_shift]
  simpa [Nat.add_comm] using split

end LineScript.Piece
