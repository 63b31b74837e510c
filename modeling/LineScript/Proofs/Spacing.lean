import LineScript.Proofs.Fusion
import LineScript.Proofs.Relocation.Columns
import LineScript.Proofs.Seam

/-!
# Lines with single spaces

A line is tidied by writing its pieces with single spaces between them, each type tag behind
the name it belongs to.  Every piece is cut off again as it was: a piece depends on the text
before it only where the two touch, and on the text behind it only up to a barrier.
-/

namespace LineScript

open LineScript.Piece LineScript.Text

namespace Piece

/-! ## Cutting a piece that stands alone -/

theorem quotedLength_take (mark : Char) (chars : List Char) :
    quotedLength mark (chars.take (quotedLength mark chars)) = quotedLength mark chars := by
  induction chars with
  | nil => rfl
  | cons c after ih =>
      rw [quotedLength]
      split
      next same => simp [quotedLength, same]
      next other => rw [List.take_succ_cons, quotedLength, if_neg other, ih]

theorem operator?_take {chars : List Char} (free : operator? chars = none) (length : Nat) :
    operator? (chars.take length) = none := by
  rw [operator?, List.find?_eq_none] at free ⊢
  intro operator member fits
  apply free operator member
  rw [List.isPrefixOf_iff_prefix] at fits ⊢
  exact fits.trans (List.take_prefix length chars)

theorem endsRun_take {c : Char} {after : List Char} (goesOn : endsRun c after = false)
    (length : Nat) : endsRun c (after.take length) = false := by
  simp only [endsRun, Bool.or_eq_false_iff, Option.isSome_eq_false_iff,
    Option.isNone_iff_eq_none] at goesOn ⊢
  obtain ⟨single, operator⟩ := goesOn
  exact ⟨single, by simpa using operator?_take operator (length + 1)⟩

theorem beginsWithDigit_take {chars : List Char} (begins : beginsWithDigit chars = true)
    (whole : Bool) : beginsWithDigit (chars.take (runLength whole chars)) = true := by
  cases chars with
  | nil => contradiction
  | cons d after =>
      have digit : d.isDigit = true := begins
      have continues : ∀ c ∈ [d], continuesIdentifier c = true := by
        simpa using continuesIdentifier_of_isDigit digit
      have taken := runLength_append_of_continues continues whole after
      rw [List.singleton_append, List.length_singleton, Nat.add_comm] at taken
      rw [taken, List.take_succ_cons]
      exact digit

theorem runLength_take (whole : Bool) (chars : List Char) :
    runLength whole (chars.take (runLength whole chars)) = runLength whole chars := by
  fun_induction runLength whole chars with
  | case1 => rfl
  | case2 whole c after point ih =>
      simp only [Bool.and_eq_true] at point
      rw [List.take_succ_cons, runLength, if_pos, ih]
      simp only [point.1, beginsWithDigit_take point.2, Bool.and_self]
  | case3 => rfl
  | case4 whole c after point goesOn ih =>
      have symbol : c ≠ '.' := by
        rintro rfl
        simp [endsRun, isSymbol, symbols] at goesOn
      have still := endsRun_take (by simpa using goesOn) (runLength (whole && c.isDigit) after)
      rw [List.take_succ_cons, runLength, if_neg (by simp [symbol]), if_neg (by simp [still]), ih]

theorem nextCut_operator (mode : Mode) :
    ∀ operator ∈ operators, ∃ c chars, operator = c :: chars ∧
      nextCut mode [] c chars = ⟨.operator, 0, operator.length⟩ := by
  cases mode <;> simp [operators] <;> decide

theorem nextCut_symbol (mode : Mode) {c : Char} (symbol : isSymbol c = true) :
    nextCut mode [] c [] = ⟨.symbol, 0, 1⟩ := by
  have cuts : symbols.all (fun c => nextCut mode [] c [] == ⟨.symbol, 0, 1⟩) = true := by
    cases mode <;> decide
  exact beq_iff_eq.mp (List.all_eq_true.mp cuts c (List.contains_iff_mem.mp symbol))

/-- A piece that is no tag is cut off in the same way when it stands alone. -/
theorem nextCut_alone {mode : Mode} {touching : List Char} {c : Char} {after : List Char}
    (plain : (nextCut mode touching c after).Plain (c :: after)) :
    ∃ chars, (nextCut mode touching c after).taken (c :: after) = c :: chars ∧
      nextCut mode [] c chars =
        ⟨(nextCut mode touching c after).shape, 0, chars.length + 1⟩ := by
  have offered := cutAt_nextCut mode touching c after
  generalize nextCut mode touching c after = cut at plain offered
  cases offered with
  | quoted quote =>
      refine ⟨after.take (quotedLength c after), rfl, ?_⟩
      rw [nextCut_of_isQuote mode [] quote, quotedLength_take,
        List.length_take_of_le (quotedLength_le c after)]
  | separator semicolon =>
      subst semicolon
      exact ⟨[], rfl, by cases mode <;> decide⟩
  | @typeTag type => exact absurd rfl (plain.no_tag type)
  | negative minus apart begins =>
      subst minus
      have digit := beginsWithDigit_take begins true
      refine ⟨after.take (runLength true after), rfl, ?_⟩
      rw [nextCut_negative mode digit, runLength_take,
        List.length_take_of_le (runLength_le true after)]
  | @operator operator found =>
      obtain ⟨listed, behind, spelled⟩ := operator?_eq_some found
      obtain ⟨d, chars, rfl, cut⟩ := nextCut_operator mode operator listed
      obtain ⟨rfl, rfl⟩ := List.cons.inj spelled
      exact ⟨chars, by simp [Cut.taken], cut⟩
  | symbol symbol => exact ⟨[], rfl, nextCut_symbol mode symbol⟩
  | run unquoted other ordinary free =>
      have minus : c ≠ '-' := by
        rintro rfl
        contradiction
      have still : operator? (c :: after.take (runLength c.isDigit after)) = none := by
        simpa using operator?_take free (runLength c.isDigit after + 1)
      refine ⟨after.take (runLength c.isDigit after), rfl, ?_⟩
      simp [nextCut, unquoted, other, minus, still, ordinary, runLength_take, runLength_le]

/-! ## Writing pieces with single spaces -/

def Content.written : Content → List Char
  | .text spelled => spelled.toList
  | .typeTag type => ';' :: type.name.toList

/-- A piece as it is written behind another. -/
def Content.spaced : Content → List Char
  | .text spelled => ' ' :: spelled.toList
  | .typeTag type => ';' :: type.name.toList

/-- A line with its pieces written anew, with single spaces between them and every type tag
directly behind the piece before it. -/
def tidy (mode : Mode) (line : String) : String :=
  match (scan mode line).map content with
  | [] => ""
  | first :: rest => String.ofList (first.written ++ rest.flatMap Content.spaced)

/-- Pieces written behind another begin with a barrier. -/
theorem exists_barrier_of_spaced (first : Content) (rest : List Content) :
    ∃ stop more, Barrier stop ∧ (first :: rest).flatMap Content.spaced = stop :: more := by
  have space : Barrier ' ' := barrier_of_isBlank (by decide)
  cases first with
  | text spelled => exact ⟨' ', _, space, rfl⟩
  | typeTag type => exact ⟨';', _, barrier_semicolon, rfl⟩

theorem head?_content_scanFrom (mode : Mode) (position : Nat) (chars : List Char)
    (type : TypeName) :
    ((scanFrom mode position [] chars).map content).head? ≠ some (.typeTag type) := by
  induction chars generalizing position with
  | nil => simp [scanFrom]
  | cons c after ih =>
      cases blank : isBlank c with
      | true =>
          rw [scanFrom, if_pos blank]
          exact ih (position + 1)
      | false =>
          rw [scanFrom_of_solid mode position [] blank]
          rcases nextCut_cases mode [] c after with plain | ⟨_, -, -, -, named, -⟩
          · simp [Cut.piece, Shape.content_of_no_tag plain.no_tag]
          · contradiction

theorem gap_spaced {contents : List Content}
    (untagged : ∀ type, contents.head? ≠ some (.typeTag type)) :
    Gap (contents.flatMap Content.spaced) := by
  cases contents with
  | nil => simp [Gap]
  | cons first rest =>
      cases first with
      | text spelled =>
          intro c member
          obtain rfl : ' ' = c := by simpa [Content.spaced] using member
          decide
      | typeTag type => exact absurd rfl (untagged type)

/-! ## Scanning what was written -/

theorem scanFrom_tag (position : Nat) {touching behind : List Char} {type : TypeName}
    (named : isIdentifier touching = true) (written : type ≠ .any) (gap : Gap behind) :
    scanFrom .annotating position touching (';' :: (type.name.toList ++ behind)) =
      ⟨.typeTag type, ⟨position + 1, position + 1 + type.name.length⟩⟩ ::
        scanFrom .annotating (position + 1 + type.name.length) [] behind := by
  have announced := announcedType?_append_iff.mpr ⟨written, gap⟩
  have cut : nextCut .annotating touching ';' (type.name.toList ++ behind) =
      ⟨.typeTag type, 1, type.name.length⟩ := nextCut_typeTag named announced
  rw [scanFrom_of_solid .annotating position touching (by decide), cut]
  simp [Cut.piece, Cut.left, Cut.stop, Shape.content, Shape.touching, ← String.length_toList]

/-- A piece is cut off as before when it is written before others. -/
theorem nextCut_spaced {mode : Mode} {touching : List Char} {c : Char} {after chars : List Char}
    (contents : List Content)
    (taken : (nextCut mode touching c after).taken (c :: after) = c :: chars)
    (alone : nextCut mode [] c chars = ⟨(nextCut mode touching c after).shape, 0, chars.length + 1⟩)
    (plain : (nextCut mode touching c after).Plain (c :: after))
    (last : (nextCut mode touching c after).left (c :: after) = [] → contents = []) :
    nextCut mode [] c (chars ++ contents.flatMap Content.spaced) =
      ⟨(nextCut mode touching c after).shape, 0, chars.length + 1⟩ := by
  cases contents with
  | nil => simpa using alone
  | cons first rest =>
      obtain ⟨stop, more, barrier, spaced⟩ := exists_barrier_of_spaced first rest
      rw [spaced, nextCut_append_barrier barrier, alone]
      · intro leaves
        exact List.cons_ne_nil _ _
          (last (left_eq_nil_of_leavesOpen (leavesOpen_of_taken taken leaves)))
      · rw [alone]
        exact .inr fun type tag => absurd tag (plain.no_tag type)

theorem content_scanFrom_spaced (mode : Mode) (position other : Nat) (touching chars : List Char) :
    (scanFrom mode other touching
      (((scanFrom mode position touching chars).map content).flatMap Content.spaced)).map content =
      (scanFrom mode position touching chars).map content := by
  fun_induction scanFrom mode position touching chars generalizing other with
  | case1 => simp [scanFrom]
  | case2 position touching c after blank ih =>
      have gap := gap_spaced (head?_content_scanFrom mode (position + 1) after)
      rw [gap.scanFrom, ih]
  | case3 position touching c after notBlank cut ahead start taken ih =>
      have solid : isBlank c = false := by simpa using notBlank
      rcases nextCut_cases mode touching c after with
        plain | ⟨type, found, rfl, rfl, named, announced⟩
      · obtain ⟨chars, spelled, alone⟩ := nextCut_alone plain
        have taken_eq : taken = c :: chars := spelled
        have text : cut.shape.content taken = .text (String.ofList (c :: chars)) := by
          rw [taken_eq, Shape.content_of_no_tag plain.no_tag]
        have last : (nextCut mode touching c after).left (c :: after) = [] →
            (scanFrom mode (start + cut.length) (cut.shape.touching taken)
              (ahead.drop cut.length)).map content = [] := by
          intro finished
          rw [show ahead.drop cut.length = [] from finished, scanFrom]
          rfl
        have same := nextCut_spaced _ spelled alone plain last
        simp only [List.map_cons, List.flatMap_cons, text, Content.spaced, String.toList_ofList]
        rw [List.cons_append, scanFrom, if_pos (by decide),
          scanFrom_append_of_nextCut solid plain.no_tag same, List.map_cons, ← taken_eq, ih]
      · obtain ⟨written, -⟩ := announcedType?_eq_some_iff.mp announced
        have shape : cut.shape = .typeTag type := congrArg Cut.shape found
        have content : cut.shape.content taken = .typeTag type := by rw [shape]; rfl
        have untouched : cut.shape.touching taken = [] := by rw [shape]; rfl
        rw [untouched] at ih ⊢
        have gap := gap_spaced
          (head?_content_scanFrom .annotating (start + cut.length) (ahead.drop cut.length))
        simp only [List.map_cons, List.flatMap_cons, content, Content.spaced]
        rw [List.cons_append, scanFrom_tag other named written gap, List.map_cons, ih]

theorem content_scanFrom_position (mode : Mode) (position other : Nat)
    (touching chars : List Char) :
    (scanFrom mode position touching chars).map content =
      (scanFrom mode other touching chars).map content := by
  rw [← Nat.zero_add position, ← Nat.zero_add other, scanFrom_shift, scanFrom_shift,
    List.map_map, List.map_map]
  rfl

theorem content_scan_tidy (mode : Mode) (line : String) :
    (scan mode (tidy mode line)).map content = (scan mode line).map content := by
  have spaced := content_scanFrom_spaced mode 0 0 [] line.toList
  have begins := head?_content_scanFrom mode 0 line.toList
  rw [← scan] at spaced begins
  unfold tidy
  split
  next empty => rw [empty, scan, String.toList_empty, scanFrom, List.map_nil]
  next first rest split =>
    rw [split] at spaced begins ⊢
    cases first with
    | typeTag type => exact absurd rfl (begins type)
    | text spelled =>
        simp only [List.flatMap_cons, Content.spaced] at spaced
        rw [List.cons_append, scanFrom, if_pos (by decide)] at spaced
        rw [scan, String.toList_ofList, content_scanFrom_position mode 0 (0 + 1)]
        exact spaced

/-- A tidy line stays as it is. -/
theorem tidy_tidy (mode : Mode) (line : String) : tidy mode (tidy mode line) = tidy mode line := by
  rw [tidy, content_scan_tidy]
  rfl

end Piece

/-! ## Interpreting a tidied line -/

theorem Token.classify_columnless (position : Nat) {piece other : Piece}
    (same : piece.content = other.content) :
    (classify position piece).columnless = (classify position other).columnless := by
  simp only [classify, same, columnless]
  split
  · rfl
  · split <;> rfl

theorem Token.ofLine_columnless {mode : Mode} {line other : String}
    (same : (scan mode line).map Piece.content = (scan mode other).map Piece.content) :
    (ofLine mode line).map columnless = (ofLine mode other).map columnless := by
  apply List.ext_getElem?
  intro position
  have piece := congrArg (·[position]?) same
  simp only [List.getElem?_map] at piece
  simp only [ofLine, List.getElem?_map, List.getElem?_mapIdx]
  cases found : (scan mode line)[position]? <;> cases also : (scan mode other)[position]? <;>
    simp_all only [Option.map_none, Option.map_some, reduceCtorEq, Option.some.injEq]
  exact classify_columnless position piece

/-- Tidying a line changes only where its pieces stand.  The tidied line has the same pieces,
is tidy, and does the same in every scope, with the same tokens but for their columns. -/
theorem interpret_tidy (mode : Mode) (line : String) :
    (scan mode (tidy mode line)).map Piece.content = (scan mode line).map Piece.content ∧
    tidy mode (tidy mode line) = tidy mode line ∧
    ∀ scope, (interpret mode (tidy mode line) scope).columnless =
      (interpret mode line scope).columnless := by
  refine ⟨content_scan_tidy mode line, tidy_tidy mode line, fun scope => ?_⟩
  rw [interpret_columnless, interpret_columnless,
    Token.ofLine_columnless (content_scan_tidy mode line)]

end LineScript
