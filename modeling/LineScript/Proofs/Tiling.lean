import LineScript.Proofs.Cut
import LineScript.Token.Classify

/-!
# Pieces tile their line

Scanning loses nothing and invents nothing.  Its pieces lie in the line one behind the
other, each spells the characters of its span, and the characters between them
are blanks and the semicolons of type tags.  The tokens of the line inherit the
spans of its pieces and, up to the question mark of a reference, their spelling.
-/

namespace LineScript.Piece

open LineScript.Text

/-! ## Tilings -/

/-- The characters that a piece stands for. -/
def Content.chars : Content → List Char
  | .text spelled => spelled.toList
  | .typeTag type => type.name.toList

/-- The pieces cut off the rest of a line, behind what was read before.  `touching`
is the text of the last piece read, if it ends there and can take a tag. -/
inductive Tiled : (before touching rest : List Char) → List Piece → Prop
  | done (before touching : List Char) : Tiled before touching [] []
  | blank {before touching rest : List Char} {pieces : List Piece} {c : Char}
      (blank : isBlank c = true) (tail : Tiled (before ++ [c]) [] rest pieces) :
      Tiled before touching (c :: rest) pieces
  | text {before touching touched rest chars : List Char} {pieces : List Piece}
      (nonempty : chars ≠ []) (touches : touched = [] ∨ touched = chars)
      (tail : Tiled (before ++ chars) touched rest pieces) :
      Tiled before touching (chars ++ rest)
        (⟨.text (String.ofList chars), ⟨before.length, before.length + chars.length⟩⟩ :: pieces)
  | tag {before touching rest : List Char} {pieces : List Piece} {type : TypeName}
      (named : isIdentifier touching = true)
      (tail : Tiled (before ++ ';' :: type.name.toList) [] rest pieces) :
      Tiled before touching (';' :: type.name.toList ++ rest)
        (⟨.typeTag type, ⟨before.length + 1, before.length + 1 + type.name.toList.length⟩⟩ ::
          pieces)

theorem Shape.content_of_no_tag {shape : Shape} (plain : ∀ type, shape ≠ .typeTag type)
    (chars : List Char) : shape.content chars = .text (String.ofList chars) := by
  cases shape with
  | typeTag type => exact absurd rfl (plain type)
  | _ => rfl

theorem Shape.touching_eq (shape : Shape) (chars : List Char) :
    shape.touching chars = [] ∨ shape.touching chars = chars := by
  cases shape <;> simp [Shape.touching]

theorem tiled_of_plain {before touching chars : List Char} {cut : Cut} {pieces : List Piece}
    (plain : cut.Plain chars) (positive : 0 < cut.length)
    (tail : Tiled (before ++ chars.take cut.length) (cut.shape.touching (chars.take cut.length))
      (chars.drop cut.length) pieces) :
    Tiled before touching chars
      (⟨cut.shape.content (chars.take cut.length),
        ⟨before.length, before.length + cut.length⟩⟩ :: pieces) := by
  have length : (chars.take cut.length).length = cut.length :=
    List.length_take_of_le plain.length_le
  have nonempty : chars.take cut.length ≠ [] := by
    intro empty
    rw [empty, List.length_nil] at length
    omega
  have tiled : Tiled before touching (chars.take cut.length ++ chars.drop cut.length) _ :=
    .text nonempty (cut.shape.touching_eq _) tail
  rw [List.take_append_drop, length] at tiled
  rw [Shape.content_of_no_tag plain.no_tag]
  exact tiled

theorem scanFrom_tiled (mode : Mode) (before touching chars : List Char) :
    Tiled before touching chars (scanFrom mode before.length touching chars) := by
  generalize position_eq : before.length = position
  fun_induction scanFrom mode position touching chars generalizing before with
  | case1 position touching => exact .done before touching
  | case2 position touching c after blank ih =>
      exact .blank blank (ih (before ++ [c]) (by simp [position_eq]))
  | case3 position touching c after solid cut ahead start taken ih =>
      subst position_eq
      have positive : 0 < cut.length := nextCut_length_pos mode touching c after
      rcases nextCut_cases mode touching c after with plain | ⟨type, found, rfl, -, named, announced⟩
      · have bound := plain.length_le
        have whole : ahead = c :: after := by simp [ahead, cut, plain.skipped]
        have begun : start = before.length := by simp [start, cut, plain.skipped]
        rw [begun] at ih ⊢
        simp only [taken, whole] at ih ⊢
        apply tiled_of_plain plain positive
        apply ih
        rw [List.length_append, List.length_take_of_le bound]
      · -- The tag goes with the semicolon passed over, so both are read before the rest.
        have cut_eq : cut = ⟨.typeTag type, 1, type.name.length⟩ := found
        have ahead_eq : ahead = after := by simp [ahead, cut_eq]
        have start_eq : start = before.length + 1 := by simp [start, cut_eq]
        obtain ⟨behind, after_eq⟩ := exists_append_of_announcedType? announced
        clear_value cut ahead start taken
        subst cut_eq ahead_eq start_eq after_eq
        have length : type.name.toList.length = type.name.length := String.length_toList
        have tail := ih (before ++ ';' :: type.name.toList) (by
          simp only [List.length_append, List.length_cons]
          omega)
        rw [List.drop_left' length] at tail ⊢
        rw [← length] at tail ⊢
        exact .tag named tail

/-! ## What a tiling accounts for -/

theorem Tiled.span_bounds {before touching rest : List Char} {pieces : List Piece}
    (tiled : Tiled before touching rest pieces) {piece : Piece} (member : piece ∈ pieces) :
    before.length ≤ piece.span.start ∧ piece.span.start < piece.span.stop ∧
      piece.span.stop ≤ before.length + rest.length := by
  induction tiled with
  | done => contradiction
  | blank _ _ ih =>
      have bounds := ih member
      simp only [List.length_append, List.length_cons, List.length_nil] at bounds ⊢
      omega
  | text nonempty _ _ ih =>
      have positive := List.length_pos_iff.mpr nonempty
      rcases List.mem_cons.mp member with rfl | member
      · simp only [List.length_append]
        omega
      · have bounds := ih member
        simp only [List.length_append] at bounds ⊢
        omega
  | @tag _ _ _ _ type _ _ ih =>
      have positive := List.length_pos_iff.mpr type.name_ne_nil
      rcases List.mem_cons.mp member with rfl | member
      · simp only [List.length_append, List.length_cons]
        omega
      · have bounds := ih member
        simp only [List.length_append, List.length_cons] at bounds ⊢
        omega

theorem Tiled.ordered {before touching rest : List Char} {pieces : List Piece}
    (tiled : Tiled before touching rest pieces) :
    pieces.Pairwise fun left right => left.span.stop ≤ right.span.start := by
  induction tiled with
  | done => exact List.Pairwise.nil
  | blank _ _ ih => exact ih
  | text _ _ tail ih =>
      refine List.pairwise_cons.mpr ⟨fun piece member => ?_, ih⟩
      have bounds := tail.span_bounds member
      simp only [List.length_append] at bounds
      exact bounds.1
  | tag _ tail ih =>
      refine List.pairwise_cons.mpr ⟨fun piece member => ?_, ih⟩
      have bounds := tail.span_bounds member
      simp only [List.length_append, List.length_cons] at bounds ⊢
      omega

theorem Tiled.spelled {before touching rest : List Char} {pieces : List Piece}
    (tiled : Tiled before touching rest pieces) {piece : Piece} (member : piece ∈ pieces) :
    (before ++ rest).extract piece.span.start piece.span.stop = piece.content.chars := by
  induction tiled with
  | done => contradiction
  | blank _ _ ih => simpa using ih member
  | text _ _ _ ih =>
      rcases List.mem_cons.mp member with rfl | member
      · simp [Content.chars]
      · simpa using ih member
  | tag _ _ ih =>
      rcases List.mem_cons.mp member with rfl | member
      · simp [Content.chars]
      · simpa using ih member

/-- The last of some pieces is a name, and a semicolon joins it to a position. -/
def JoinsName (chars : List Char) (pieces : List Piece) (position : Nat) : Prop :=
  ∃ earlier name span, pieces = earlier ++ [⟨.text name, span⟩] ∧
    isIdentifier name.toList = true ∧ chars[span.stop]? = some ';' ∧ position = span.stop + 1

theorem JoinsName.cons {chars : List Char} {pieces : List Piece} {position : Nat} (piece : Piece)
    (joins : JoinsName chars pieces position) : JoinsName chars (piece :: pieces) position := by
  obtain ⟨earlier, name, span, rfl, rest⟩ := joins
  exact ⟨piece :: earlier, name, span, rfl, rest⟩

theorem Tiled.joinsName {before touching rest : List Char} {pieces front back : List Piece}
    {type : TypeName} {span : Span} (tiled : Tiled before touching rest pieces)
    (split : pieces = front ++ ⟨.typeTag type, span⟩ :: back) :
    JoinsName (before ++ rest) front span.start ∨
      front = [] ∧ isIdentifier touching = true ∧ (before ++ rest)[before.length]? = some ';' ∧
        span.start = before.length + 1 := by
  induction tiled generalizing front with
  | done => simp at split
  | blank _ _ ih =>
      -- Behind a blank nothing is touched, so the tag has its name among these pieces.
      rcases ih split with joins | ⟨-, named, -⟩
      · exact .inl (by simpa using joins)
      · simp [isIdentifier] at named
  | @text before touching touched rest chars pieces nonempty touches tail ih =>
      cases front with
      | nil => simp at split
      | cons piece front =>
          obtain ⟨rfl, behind⟩ := List.cons.inj split
          rcases ih behind with joins | ⟨rfl, named, semicolon, start⟩
          · exact .inl (.cons _ (by simpa using joins))
          · rcases touches with rfl | rfl
            · simp [isIdentifier] at named
            · refine .inl ⟨[], _, _, rfl, by simpa using named, ?_, ?_⟩
              · simpa using semicolon
              · simpa using start
  | tag named tail ih =>
      cases front with
      | nil =>
          obtain ⟨head, -⟩ := List.cons.inj split
          obtain ⟨-, rfl⟩ := Piece.mk.inj head
          exact .inr ⟨rfl, named, by simp, rfl⟩
      | cons piece front =>
          obtain ⟨rfl, behind⟩ := List.cons.inj split
          rcases ih behind with joins | ⟨-, named, -⟩
          · exact .inl (.cons _ (by simpa using joins))
          · simp [isIdentifier] at named

/-- A character that belongs to no piece: a blank, or the semicolon of a tag. -/
def Uncovered (pieces : List Piece) (position : Nat) (c : Char) : Prop :=
  isBlank c = true ∨
    c = ';' ∧ ∃ piece ∈ pieces, (∃ type, piece.content = .typeTag type) ∧
      piece.span.start = position + 1

theorem Uncovered.cons {pieces : List Piece} {position : Nat} {c : Char} (piece : Piece)
    (uncovered : Uncovered pieces position c) : Uncovered (piece :: pieces) position c := by
  rcases uncovered with blank | ⟨semicolon, tag, member, rest⟩
  · exact .inl blank
  · exact .inr ⟨semicolon, tag, List.mem_cons_of_mem _ member, rest⟩

theorem Tiled.covered {before touching rest : List Char} {pieces : List Piece} {c : Char}
    (tiled : Tiled before touching rest pieces) {position : Nat} (ahead : before.length ≤ position)
    (found : (before ++ rest)[position]? = some c)
    (free : ∀ piece ∈ pieces, piece.span.contains position = false) :
    Uncovered pieces position c := by
  induction tiled with
  | done before =>
      rw [List.append_nil, List.getElem?_eq_none ahead] at found
      contradiction
  | @blank before _ _ _ d blank tail ih =>
      rcases Nat.eq_or_lt_of_le ahead with rfl | further
      · simp only [List.getElem?_append_right, Nat.le_refl, Nat.sub_self, List.getElem?_cons_zero,
          Option.some.injEq] at found
        exact .inl (found ▸ blank)
      · have further : (before ++ [d]).length ≤ position := by
          rw [List.length_append]
          exact further
        exact ih further (by simpa using found) free
  | @text before _ _ _ chars _ _ _ tail ih =>
      have outside := free _ List.mem_cons_self
      simp only [Span.contains, Bool.and_eq_false_iff, decide_eq_false_iff_not] at outside
      have further : (before ++ chars).length ≤ position := by
        rw [List.length_append]
        omega
      exact .cons _ (ih further (by simpa using found)
        fun piece member => free piece (List.mem_cons_of_mem _ member))
  | @tag before _ _ _ type _ tail ih =>
      have outside := free _ List.mem_cons_self
      simp only [Span.contains, Bool.and_eq_false_iff, decide_eq_false_iff_not] at outside
      rcases Nat.eq_or_lt_of_le ahead with rfl | further
      · simp only [List.cons_append, List.getElem?_append_right, Nat.le_refl, Nat.sub_self,
          List.getElem?_cons_zero, Option.some.injEq] at found
        exact .inr ⟨found.symm, _, List.mem_cons_self, ⟨type, rfl⟩, rfl⟩
      · have further : (before ++ ';' :: type.name.toList).length ≤ position := by
          rw [List.length_append, List.length_cons]
          omega
        exact .cons _ (ih further (by simpa using found)
          fun piece member => free piece (List.mem_cons_of_mem _ member))

/-! ## The pieces of a line -/

structure Tiles (chars : List Char) (pieces : List Piece) : Prop where
  nonempty : ∀ piece ∈ pieces, piece.span.start < piece.span.stop
  inside : ∀ piece ∈ pieces, piece.span.stop ≤ chars.length
  ordered : pieces.Pairwise fun left right => left.span.stop ≤ right.span.start
  spelled : ∀ piece ∈ pieces,
    chars.extract piece.span.start piece.span.stop = piece.content.chars
  tagged : ∀ front type span back, pieces = front ++ ⟨.typeTag type, span⟩ :: back →
    JoinsName chars front span.start
  covered : ∀ position c, chars[position]? = some c →
    (∀ piece ∈ pieces, piece.span.contains position = false) → Uncovered pieces position c

theorem scan_tiles (mode : Mode) (line : String) : Tiles line.toList (scan mode line) := by
  have tiled : Tiled [] [] line.toList (scan mode line) :=
    scanFrom_tiled mode [] [] line.toList
  refine ⟨?_, ?_, tiled.ordered, ?_, ?_, ?_⟩
  · intro piece member
    exact (tiled.span_bounds member).2.1
  · intro piece member
    have bounds := tiled.span_bounds member
    simpa using bounds.2.2
  · intro piece member
    exact tiled.spelled member
  · intro front type span back split
    rcases tiled.joinsName split with joins | ⟨-, named, -⟩
    · exact joins
    · contradiction
  · intro position c found free
    exact tiled.covered (Nat.zero_le _) found free

end LineScript.Piece

namespace LineScript.Token

open LineScript.Piece

/-! ## The tokens of a line -/

/-- The characters of a line that a token stands for. -/
def spelling (token : Token) : List Char :=
  if token.kind = .reference then '?' :: token.lexeme.toList else token.lexeme.toList

theorem mem_of_lookup {table : List (String × TokenKind)} {text : String} {kind : TokenKind}
    (found : table.lookup text = some kind) : (text, kind) ∈ table := by
  obtain ⟨front, back, rfl, -⟩ := List.lookup_eq_some_iff.mp found
  simp

theorem numeralKind?_eq_some {chars : List Char} {kind : TokenKind}
    (found : numeralKind? chars = some kind) : kind = .number ∨ kind = .float := by
  simp only [numeralKind?] at found
  generalize (if chars.head? = some '-' then chars.tail else chars) = unsigned at found
  split at found
  · split at found <;> simp_all
  · contradiction

theorem kindOfText_ne_reference (text : String) : (kindOfText text).1 ≠ .reference := by
  have words : ∀ entry ∈ keywords, entry.2 ≠ .reference := by decide
  have signs : ∀ entry ∈ operatorKinds ++ symbolKinds, entry.2 ≠ .reference := by decide
  unfold kindOfText
  split
  next found => exact words _ (mem_of_lookup found)
  split
  next found => exact signs _ (mem_of_lookup found)
  split
  next found => rcases numeralKind?_eq_some found with rfl | rfl <;> simp
  split
  · simp
  split <;> simp

theorem eq_of_referenceName? {chars name : List Char} (found : referenceName? chars = some name) :
    chars = '?' :: name := by
  cases chars with
  | nil => contradiction
  | cons c rest =>
      rw [referenceName?] at found
      split at found
      · simp_all
      · contradiction

theorem spelling_classify (position : Nat) (piece : Piece) :
    (classify position piece).spelling = piece.content.chars := by
  unfold classify
  split
  next type content => rw [content]; rfl
  next text content =>
    rw [content]
    split
    next name found => simp [spelling, Content.chars, eq_of_referenceName? found]
    next =>
      have plain := kindOfText_ne_reference text
      simp [spelling, Content.chars, plain]

theorem span_classify (position : Nat) (piece : Piece) :
    (classify position piece).span = piece.span := by
  unfold classify
  split
  · rfl
  · split <;> rfl

theorem position_classify (position : Nat) (piece : Piece) :
    (classify position piece).position = position := by
  unfold classify
  split
  · rfl
  · split <;> rfl

/-- The pieces of a line tile it, and its tokens are these pieces in order: each has
the place and the span of its piece, and its lexeme is the text of the span,
less the question mark of a reference. -/
theorem scan_tiles_and_ofLine_spells (mode : Mode) (line : String) :
    Tiles line.toList (scan mode line) ∧
    (ofLine mode line).map (fun token => (token.position, token.span)) =
      (scan mode line).mapIdx (fun position piece => (position, piece.span)) ∧
    ∀ token ∈ ofLine mode line,
      line.toList.extract token.span.start token.span.stop = token.spelling := by
  have tiles := scan_tiles mode line
  refine ⟨tiles, ?_, ?_⟩
  · apply List.ext_getElem?
    intro position
    simp [ofLine, Function.comp_def, span_classify, position_classify]
  · intro token member
    obtain ⟨position, inside, rfl⟩ := List.mem_mapIdx.mp member
    rw [span_classify, spelling_classify]
    exact tiles.spelled _ (List.getElem_mem inside)

theorem ofLine_spells_reference :
    let line := "let x;int print ?x"
    let token : Token := ⟨.reference, "x", 4, ⟨16, 18⟩, .any⟩
    token ∈ ofLine .annotating line ∧
      line.toList.extract token.span.start token.span.stop = '?' :: token.lexeme.toList := by
  intro line token
  have member : token ∈ ofLine .annotating line := by decide +kernel
  exact ⟨member, (scan_tiles_and_ofLine_spells .annotating line).2.2 token member⟩

end LineScript.Token
