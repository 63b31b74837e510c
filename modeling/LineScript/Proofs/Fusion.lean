import LineScript.Proofs.Word
import Mathlib.Tactic.ByContra

/-!
# How the two modes differ

Annotating fuses what terminating keeps apart: a semicolon and a type word, where the
semicolon touches a name and the word reaches to a blank or to the end of the line.
The two scans part at such a semicolon and meet again behind the word, because no run
touches a blank.  Every other piece is the same in both.
-/

namespace LineScript.Piece

open LineScript.Text

/-! ## Fusing pieces -/

/-- The type that a semicolon and a word announce behind another piece. -/
def fusedType? (chars : List Char) (previous : Option Piece) (separator word : Piece) :
    Option TypeName :=
  match previous, separator.content, word.content with
  | some ⟨.text name, span⟩, .text mark, .text spelled =>
      if isIdentifier name.toList ∧ mark = ";" ∧ separator.span = .single span.stop ∧
          word.span.start = span.stop + 1 ∧ chars[word.span.stop]?.all isBlank then
        TypeName.ofTag? spelled
      else none
  | _, _, _ => none

/-- Replace every semicolon and word that announce a type by the type.  `previous` is the
piece before them as it was cut, whatever was made of it. -/
def fuse (chars : List Char) (previous : Option Piece) : List Piece → List Piece
  | [] => []
  | [last] => [last]
  | separator :: word :: rest =>
      match fusedType? chars previous separator word with
      | some type => ⟨.typeTag type, word.span⟩ :: fuse chars (some word) rest
      | none => separator :: fuse chars (some separator) (word :: rest)

theorem fusedType?_eq_some_iff {chars : List Char} {previous : Option Piece}
    {separator word : Piece} {type : TypeName} :
    fusedType? chars previous separator word = some type ↔
      ∃ name start position stop, isIdentifier name.toList = true ∧
        previous = some ⟨.text name, ⟨start, position⟩⟩ ∧
        separator = ⟨.text ";", ⟨position, position + 1⟩⟩ ∧
        word = ⟨.text type.name, ⟨position + 1, stop⟩⟩ ∧ type ≠ .any ∧
        ∀ c ∈ chars[stop]?, isBlank c = true := by
  constructor
  · intro found
    obtain ⟨mark, markSpan⟩ := separator
    obtain ⟨spelled, ⟨wordStart, stop⟩⟩ := word
    unfold fusedType? at found
    split at found
    next name span mark spelled markContent wordContent =>
      split at found
      next conditions =>
        obtain ⟨named, rfl, rfl, rfl, gap⟩ := conditions
        obtain ⟨written, rfl⟩ := TypeName.ofTag?_eq_some_iff.mp found
        refine ⟨name, span.start, span.stop, stop, named, rfl, ?_, ?_, written, ?_⟩
        · rw [← markContent]
          rfl
        · rw [← wordContent]
        · intro c member
          rw [Option.mem_def.mp member] at gap
          exact gap
      · contradiction
    · contradiction
  · rintro ⟨name, start, position, stop, named, rfl, rfl, rfl, written, gap⟩
    have ends : (chars[stop]?).all isBlank = true := by
      cases found : chars[stop]? with
      | none => rfl
      | some c => exact gap c found
    simp only [fusedType?, named, Span.single, ends, and_self, if_true]
    exact TypeName.ofTag?_eq_some_iff.mpr ⟨written, rfl⟩

theorem fuse_cons_of_fused {chars : List Char} {previous : Option Piece} {separator word : Piece}
    {type : TypeName} (fused : fusedType? chars previous separator word = some type)
    (rest : List Piece) :
    fuse chars previous (separator :: word :: rest) =
      ⟨.typeTag type, word.span⟩ :: fuse chars (some word) rest := by
  rw [fuse, fused]

theorem fuse_cons_of_kept {chars : List Char} {previous : Option Piece} {piece : Piece}
    {rest : List Piece}
    (kept : ∀ word ∈ rest.head?, fusedType? chars previous piece word = none) :
    fuse chars previous (piece :: rest) = piece :: fuse chars (some piece) rest := by
  cases rest with
  | nil => rfl
  | cons word rest => rw [fuse, kept word rfl]

/-! ## Gaps -/

/-- A text that is empty or begins with a blank. -/
def Gap (rest : List Char) : Prop := ∀ c ∈ rest.head?, isBlank c = true

theorem Gap.endsRuns {rest : List Char} (gap : Gap rest) : EndsRuns rest := by
  cases rest with
  | nil => exact endsRuns_nil
  | cons c after => exact endsRuns_blank (gap c rfl) after

theorem Gap.scanFrom {rest : List Char} (gap : Gap rest) (mode : Mode) (position : Nat)
    (touching : List Char) :
    scanFrom mode position touching rest = scanFrom mode position [] rest := by
  cases rest with
  | nil => rw [Piece.scanFrom, Piece.scanFrom]
  | cons c after => rw [Piece.scanFrom, if_pos (gap c rfl), Piece.scanFrom, if_pos (gap c rfl)]

theorem announcedType?_append_iff {type : TypeName} {behind : List Char} :
    announcedType? (type.name.toList ++ behind) = some type ↔ type ≠ .any ∧ Gap behind := by
  have word : (type.name.toList ++ behind).takeWhile (fun c => !isBlank c) =
      type.name.toList ++ behind.takeWhile fun c => !isBlank c := by
    apply List.takeWhile_append_of_pos
    intro c member
    simp [not_isBlank_of_mem_typeName member]
  rw [announcedType?_eq_some_iff, word, List.self_eq_append_right]
  cases behind with
  | nil => simp [Gap]
  | cons c after => simp [Gap, List.takeWhile_cons]

/-! ## One step of the two scans -/

theorem nextCut_terminating_semicolon (touching after : List Char) :
    nextCut .terminating touching ';' after = ⟨.separator, 0, 1⟩ := by
  simp [nextCut_semicolon, separatorCut]

theorem nextCut_terminating_of_plain {touching : List Char} {c : Char} {after : List Char}
    (plain : (nextCut .annotating touching c after).Plain (c :: after)) :
    nextCut .terminating touching c after = nextCut .annotating touching c after := by
  by_cases semicolon : c = ';'
  · subst semicolon
    rcases separatorCut_cases .annotating touching after with same | ⟨type, tag, -⟩
    · rw [nextCut_terminating_semicolon, nextCut_semicolon, same]
    · have shape := plain.no_tag type
      rw [nextCut_semicolon, tag] at shape
      exact absurd rfl shape
  · simp [nextCut, semicolon]

/-- Where annotating cuts a tag, terminating cuts a semicolon and a word. -/
theorem scanFrom_terminating_tag (position : Nat) (touching : List Char) (type : TypeName)
    {behind : List Char} (gap : Gap behind) :
    scanFrom .terminating position touching (';' :: (type.name.toList ++ behind)) =
      ⟨.text ";", ⟨position, position + 1⟩⟩ ::
        ⟨.text type.name, ⟨position + 1, position + 1 + type.name.toList.length⟩⟩ ::
          scanFrom .terminating (position + 1 + type.name.toList.length) [] behind := by
  have cut : nextCut .terminating touching ';' ([] ++ (type.name.toList ++ behind)) =
      ⟨.separator, 0, ([] : List Char).length + 1⟩ := nextCut_terminating_semicolon touching _
  have scanned := scanFrom_append_of_nextCut (by decide) (by simp) cut position
  have untouched : Shape.separator.touching [';'] = [] := rfl
  rw [List.singleton_append, untouched, List.length_nil, Nat.zero_add] at scanned
  rw [scanned, scanFrom_name .terminating _ [] (isIdentifier_typeName type) gap.endsRuns,
    gap.scanFrom, String.ofList_toList]

/-- Only a run is a name, so what touches the text behind a piece is a name exactly when
the piece is. -/
theorem touching_eq_iff (mode : Mode) (touching : List Char) (c : Char) (after : List Char)
    {name : List Char} (named : isIdentifier name = true) :
    (nextCut mode touching c after).shape.touching
        ((c :: after).take (nextCut mode touching c after).length) = name ↔
      (c :: after).take (nextCut mode touching c after).length = name := by
  constructor
  · intro touches
    rcases (nextCut mode touching c after).shape.touching_eq
      ((c :: after).take (nextCut mode touching c after).length) with empty | whole
    · rw [empty] at touches
      rw [← touches] at named
      contradiction
    · rw [← whole, touches]
  · intro taken
    obtain ⟨length, positive⟩ :=
      Nat.exists_eq_add_of_lt (nextCut_length_pos mode touching c after)
    have continues : continuesIdentifier c = true := by
      apply continuesIdentifier_of_mem named
      rw [← taken, positive, Nat.zero_add, List.take_succ_cons]
      exact List.mem_cons_self
    rw [nextCut_of_continuesIdentifier mode touching continues] at taken ⊢
    exact taken

/-- A type word right behind a semicolon, with a gap behind it, is announced. -/
theorem announcedType?_of_spelled (before : List Char) {after : List Char} {type : TypeName}
    {stop : Nat} (written : type ≠ .any)
    (spelled : (before ++ after).extract before.length stop = type.name.toList)
    (gap : ∀ c ∈ (before ++ after)[stop]?, isBlank c = true) :
    announcedType? after = some type := by
  have taken : after.take (stop - before.length) = type.name.toList := by
    simpa [List.extract_eq_take_drop] using spelled
  have reached : before.length ≤ stop := by
    by_contra short
    have empty : stop - before.length = 0 := by omega
    rw [empty, List.take_zero] at taken
    exact type.name_ne_nil taken.symm
  have behind : Gap (after.drop (stop - before.length)) := by
    intro c member
    apply gap c
    rw [List.getElem?_append_right reached]
    simpa using member
  rw [← List.take_append_drop (stop - before.length) after, taken]
  exact announcedType?_append_iff.mpr ⟨written, behind⟩

theorem fusedType?_of_gap (before : List Char) {touching behind : List Char} {first : Nat}
    {type : TypeName} (named : isIdentifier touching = true) (written : type ≠ .any)
    (gap : Gap behind) :
    fusedType? (before ++ ';' :: (type.name.toList ++ behind))
      (some ⟨.text (String.ofList touching), ⟨first, before.length⟩⟩)
      ⟨.text ";", ⟨before.length, before.length + 1⟩⟩
      ⟨.text type.name, ⟨before.length + 1, before.length + 1 + type.name.toList.length⟩⟩ =
      some type := by
  refine fusedType?_eq_some_iff.mpr
    ⟨_, _, _, _, by simpa using named, rfl, rfl, rfl, written, ?_⟩
  intro c member
  have split : before ++ ';' :: (type.name.toList ++ behind) =
      (before ++ ';' :: type.name.toList) ++ behind := by simp
  have reached : before.length + 1 + type.name.toList.length =
      (before ++ ';' :: type.name.toList).length := by
    simp only [List.length_append, List.length_cons]
    omega
  apply gap c
  rw [split, reached, List.getElem?_append_right (Nat.le_refl _), Nat.sub_self] at member
  rwa [List.head?_eq_getElem?]

/-! ## The two scans -/

/-- The last piece cut tells the same as the run that touches the rest, unless a gap keeps
the two apart. -/
structure Follows (previous : Option Piece) (position : Nat) (touching rest : List Char) :
    Prop where
  behind : ∀ piece ∈ previous, piece.span.stop ≤ position
  touches : ¬ Gap rest → ∀ name, isIdentifier name = true →
    ((∃ start, previous = some ⟨.text (String.ofList name), ⟨start, position⟩⟩) ↔ touching = name)

theorem Follows.start (rest : List Char) : Follows none 0 [] rest := by
  refine ⟨by simp, fun _ name named => ?_⟩
  constructor
  · simp
  · rintro rfl
    contradiction

theorem Follows.blank {previous : Option Piece} {position : Nat} {touching rest : List Char}
    (follows : Follows previous position touching rest) (after : List Char) :
    Follows previous (position + 1) [] after := by
  refine ⟨fun piece member => Nat.le_succ_of_le (follows.behind piece member), ?_⟩
  intro _ name named
  constructor
  · rintro ⟨start, rfl⟩
    have bound := follows.behind _ rfl
    simp only at bound
    omega
  · rintro rfl
    contradiction

theorem Follows.plain {touching : List Char} {c : Char} {after : List Char}
    (plain : (nextCut .annotating touching c after).Plain (c :: after)) (position : Nat)
    (rest : List Char) :
    let cut := nextCut .annotating touching c after
    let taken := (c :: after).take cut.length
    Follows (some ⟨cut.shape.content taken, ⟨position, position + cut.length⟩⟩)
      (position + cut.length) (cut.shape.touching taken) rest := by
  intro cut taken
  refine ⟨by simp, fun _ name named => ?_⟩
  rw [touching_eq_iff .annotating touching c after named, Shape.content_of_no_tag plain.no_tag]
  simp [taken, cut, String.ofList_inj]

theorem fusedType?_of_plain {before touching : List Char} {c : Char} {after : List Char}
    {previous : Option Piece}
    (follows : Follows previous before.length touching (c :: after)) (solid : isBlank c = false)
    (plain : (nextCut .annotating touching c after).Plain (c :: after)) :
    let cut := nextCut .annotating touching c after
    let taken := (c :: after).take cut.length
    ∀ word ∈ (scanFrom .terminating (before.length + cut.length) (cut.shape.touching taken)
      ((c :: after).drop cut.length)).head?,
      fusedType? (before ++ c :: after) previous
        ⟨cut.shape.content taken, ⟨before.length, before.length + cut.length⟩⟩ word = none := by
  intro cut taken word member
  rw [← Option.not_isSome_iff_eq_none, Option.isSome_iff_exists]
  rintro ⟨type, fused⟩
  obtain ⟨name, start, position, stop, named, rfl, separator, rfl, written, gap⟩ :=
    fusedType?_eq_some_iff.mp fused
  obtain ⟨content, span⟩ := Piece.mk.inj separator
  obtain ⟨rfl, length⟩ := Span.mk.inj span
  have single : cut.length = 1 := by omega
  rw [Shape.content_of_no_tag plain.no_tag] at content
  obtain rfl : c = ';' := by
    have spelled := congrArg String.toList (Content.text.inj content)
    simpa [taken, single] using spelled
  have touched : touching = name.toList := by
    have apart : ¬ Gap (';' :: after) := fun gap => by simp [gap ';' rfl] at solid
    exact (follows.touches apart name.toList named).mp ⟨start, by rw [String.ofList_toList]⟩
  -- The word lies right behind the semicolon, so the semicolon announces its type.
  rw [single] at member
  have tiled := scanFrom_tiled .terminating (before ++ [';']) (cut.shape.touching taken) after
  have spelled := tiled.spelled (List.mem_of_head? (by simpa using member))
  have behind : (before ++ [';']).length = before.length + 1 := by simp
  have announced : announcedType? after = some type := by
    refine announcedType?_of_spelled (before ++ [';']) written ?_ (by simpa using gap)
    rw [behind]
    exact spelled
  have tag : nextCut .annotating touching ';' after = ⟨.typeTag type, 1, type.name.length⟩ :=
    nextCut_typeTag (touched ▸ named) announced
  exact plain.no_tag type (by rw [tag])

theorem fuse_scanFrom (before touching rest : List Char) (previous : Option Piece)
    (follows : Follows previous before.length touching rest) :
    fuse (before ++ rest) previous (scanFrom .terminating before.length touching rest) =
      scanFrom .annotating before.length touching rest := by
  generalize position_eq : before.length = position at follows
  fun_induction scanFrom .annotating position touching rest generalizing before previous with
  | case1 position touching => rw [scanFrom]; rfl
  | case2 position touching c after blank ih =>
      have tail := ih (before ++ [c]) previous (by simp [position_eq]) (follows.blank after)
      rw [scanFrom, if_pos blank]
      simpa using tail
  | case3 position touching c after solid cut ahead start taken ih =>
      subst position_eq
      rcases nextCut_cases .annotating touching c after with
        plain | ⟨type, found, rfl, -, named, announced⟩
      · have begun : start = before.length := by simp [start, cut, plain.skipped]
        have whole : ahead = c :: after := by simp [ahead, cut, plain.skipped]
        have reached : (before ++ (c :: after).take cut.length).length =
            before.length + cut.length := by
          rw [List.length_append, List.length_take_of_le plain.length_le]
        have tail := ih (before ++ taken)
          (some ⟨cut.shape.content taken, ⟨start, start + cut.length⟩⟩)
        simp only [begun, whole, taken] at tail ⊢
        rw [scanFrom, if_neg solid, nextCut_terminating_of_plain plain]
        simp only [plain.skipped, List.drop_zero, Nat.add_zero]
        rw [fuse_cons_of_kept (fusedType?_of_plain follows (by simpa using solid) plain)]
        congr 1
        rw [← tail reached (.plain plain _ _), List.append_assoc, List.take_append_drop]
      · -- The scans part at the semicolon and meet behind the word, where a gap keeps the word
        -- from touching what comes next.
        obtain ⟨behind, rfl⟩ := exists_append_of_announcedType? announced
        obtain ⟨written, gap⟩ := announcedType?_append_iff.mp announced
        have cut_eq : cut = ⟨.typeTag type, 1, type.name.length⟩ := found
        have ahead_eq : ahead = type.name.toList ++ behind := by simp [ahead, cut_eq]
        have start_eq : start = before.length + 1 := by simp [start, cut_eq]
        clear_value cut ahead start taken
        subst cut_eq ahead_eq start_eq
        have length : type.name.toList.length = type.name.length := String.length_toList
        have apart : ¬ Gap (';' :: (type.name.toList ++ behind)) := fun gap => solid (gap ';' rfl)
        obtain ⟨first, rfl⟩ := (follows.touches apart touching named).mpr rfl
        have tail := ih (before ++ ';' :: type.name.toList)
          (some ⟨.text type.name, ⟨before.length + 1, before.length + 1 + type.name.toList.length⟩⟩)
        rw [List.drop_left' length] at tail ⊢
        rw [← length] at tail ⊢
        rw [scanFrom_terminating_tag _ _ type gap,
          fuse_cons_of_fused (fusedType?_of_gap before named written gap)]
        congr 1
        refine Eq.trans ?_ (tail (by simp; omega) ⟨by simp, fun apart => absurd gap apart⟩)
        simp [Shape.touching]

theorem exists_text_of_terminating {position : Nat} {touching chars : List Char} {piece : Piece}
    (member : piece ∈ scanFrom .terminating position touching chars) :
    ∃ text, piece.content = .text text := by
  fun_induction scanFrom .terminating position touching chars with
  | case1 => contradiction
  | case2 position touching c after blank ih => exact ih member
  | case3 position touching c after solid cut ahead start taken ih =>
      rcases List.mem_cons.mp member with rfl | member
      · rcases nextCut_cases .terminating touching c after with plain | ⟨_, _, _, clash, _⟩
        · exact ⟨_, Shape.content_of_no_tag plain.no_tag taken⟩
        · contradiction
      · exact ih member

/-- Annotating gives the pieces of terminating with every announced type fused, and
terminating gives no type at all. -/
theorem scan_annotating_eq_fuse (line : String) :
    scan .annotating line = fuse line.toList none (scan .terminating line) ∧
      ∀ piece ∈ scan .terminating line, ∃ text, piece.content = .text text := by
  constructor
  · exact (fuse_scanFrom [] [] line.toList none (.start _)).symm
  · exact fun piece member => exists_text_of_terminating member

theorem scan_annotating_fuses_second_type :
    let line := "let x;int;str"
    let word : Piece := ⟨.text "str", ⟨10, 13⟩⟩
    word ∈ scan .terminating line ∧ (∃ text, word.content = .text text) ∧
      fuse line.toList none (scan .terminating line) =
        [⟨.text "let", ⟨0, 3⟩⟩, ⟨.text "x", ⟨4, 5⟩⟩, ⟨.text ";", ⟨5, 6⟩⟩, ⟨.text "int", ⟨6, 9⟩⟩,
          ⟨.typeTag .str, ⟨10, 13⟩⟩] := by
  intro line word
  have member : word ∈ scan .terminating line := by decide +kernel
  obtain ⟨fused, texts⟩ := scan_annotating_eq_fuse line
  refine ⟨member, texts word member, ?_⟩
  rw [← fused]
  decide +kernel

end LineScript.Piece
