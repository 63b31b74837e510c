import LineScript.Piece.Scan

/-!
# What the next piece of a text can be

Every piece that is no type tag takes characters off the front of the text.  A
type tag takes the word behind a semicolon, and only where the semicolon touches a
name.  This is all that scanning needs to know of a cut.
-/

namespace LineScript

theorem TypeName.name_ne_nil (type : TypeName) : type.name.toList ≠ [] := by
  cases type <;> decide

namespace Piece

open LineScript.Text

/-! ## Lengths -/

theorem runLength_le (whole : Bool) (chars : List Char) :
    runLength whole chars ≤ chars.length := by
  induction chars generalizing whole with
  | nil => simp [runLength]
  | cons c after ih =>
      have continued := ih false
      have kept := ih (whole && c.isDigit)
      rw [runLength, List.length_cons]
      split
      · omega
      split
      · omega
      · omega

theorem quotedLength_le (mark : Char) (chars : List Char) :
    quotedLength mark chars ≤ chars.length := by
  induction chars with
  | nil => simp [quotedLength]
  | cons c after ih =>
      rw [quotedLength, List.length_cons]
      split <;> omega

theorem operator?_eq_some {chars operator : List Char} (found : operator? chars = some operator) :
    operator ∈ operators ∧ operator <+: chars := by
  have fits := List.find?_some found
  exact ⟨List.mem_of_find?_eq_some found, List.isPrefixOf_iff_prefix.mp fits⟩

theorem length_le_of_operator? {chars operator : List Char}
    (found : operator? chars = some operator) : operator.length ≤ chars.length :=
  (operator?_eq_some found).2.length_le

/-! ## Type tags -/

theorem announcedType?_eq_some_iff {after : List Char} {type : TypeName} :
    announcedType? after = some type ↔
      type ≠ .any ∧ type.name.toList = after.takeWhile fun c => !isBlank c := by
  rw [announcedType?, TypeName.ofTag?_eq_some_iff, ← String.toList_inj, String.toList_ofList]

theorem exists_append_of_announcedType? {after : List Char} {type : TypeName}
    (announced : announcedType? after = some type) :
    ∃ behind, after = type.name.toList ++ behind := by
  obtain ⟨-, word⟩ := announcedType?_eq_some_iff.mp announced
  refine ⟨after.dropWhile fun c => !isBlank c, ?_⟩
  rw [word, List.takeWhile_append_dropWhile]

theorem separatorCut_cases (mode : Mode) (touching after : List Char) :
    separatorCut mode touching after = ⟨.separator, 0, 1⟩ ∨
      ∃ type, separatorCut mode touching after = ⟨.typeTag type, 1, type.name.length⟩ ∧
        mode = .annotating ∧ isIdentifier touching = true ∧
        announcedType? after = some type := by
  unfold separatorCut
  split
  next type named announced => exact .inr ⟨type, rfl, rfl, named, announced⟩
  · exact .inl rfl

/-! ## Cuts -/

theorem nextCut_of_isQuote (mode : Mode) (touching : List Char) {c : Char}
    (quote : isQuote c = true) (after : List Char) :
    nextCut mode touching c after = ⟨.quoted, 0, quotedLength c after + 1⟩ :=
  if_pos quote

theorem nextCut_semicolon (mode : Mode) (touching after : List Char) :
    nextCut mode touching ';' after = separatorCut mode touching after := by
  simp [nextCut, isQuote, quoteMarks]

theorem nextCut_typeTag {touching after : List Char} {type : TypeName}
    (named : isIdentifier touching = true) (announced : announcedType? after = some type) :
    nextCut .annotating touching ';' after = ⟨.typeTag type, 1, type.name.length⟩ := by
  simp [nextCut_semicolon, separatorCut, named, announced]

theorem nextCut_negative (mode : Mode) {after : List Char} (begins : beginsWithDigit after = true) :
    nextCut mode [] '-' after = ⟨.run, 0, runLength true after + 1⟩ := by
  simp [nextCut, isQuote, quoteMarks, begins]

/-- A cut that passes over nothing and stays within the text. -/
structure Cut.Plain (cut : Cut) (chars : List Char) : Prop where
  no_tag : ∀ type, cut.shape ≠ .typeTag type
  skipped : cut.skipped = 0
  length_le : cut.length ≤ chars.length

/-- The ways to cut a piece at a character that is no blank, each with what it rests on. -/
inductive CutAt (mode : Mode) (touching : List Char) (c : Char) (after : List Char) : Cut → Prop
  | quoted (quote : isQuote c = true) :
      CutAt mode touching c after ⟨.quoted, 0, quotedLength c after + 1⟩
  | separator (semicolon : c = ';') : CutAt mode touching c after ⟨.separator, 0, 1⟩
  | typeTag {type : TypeName} (semicolon : c = ';') (annotating : mode = .annotating)
      (named : isIdentifier touching = true) (announced : announcedType? after = some type) :
      CutAt mode touching c after ⟨.typeTag type, 1, type.name.length⟩
  | negative (minus : c = '-') (apart : touching = []) (begins : beginsWithDigit after = true) :
      CutAt mode touching c after ⟨.run, 0, runLength true after + 1⟩
  | operator {operator : List Char} (found : operator? (c :: after) = some operator) :
      CutAt mode touching c after ⟨.operator, 0, operator.length⟩
  | symbol (symbol : isSymbol c = true) : CutAt mode touching c after ⟨.symbol, 0, 1⟩
  | run (unquoted : isQuote c = false) (other : c ≠ ';') (ordinary : isSymbol c = false)
      (free : operator? (c :: after) = none) :
      CutAt mode touching c after ⟨.run, 0, runLength c.isDigit after + 1⟩

theorem cutAt_nextCut (mode : Mode) (touching : List Char) (c : Char) (after : List Char) :
    CutAt mode touching c after (nextCut mode touching c after) := by
  unfold nextCut
  split
  next quote => exact .quoted quote
  next unquoted =>
    split
    next semicolon =>
      rcases separatorCut_cases mode touching after with
        separator | ⟨type, tag, annotating, named, announced⟩
      · rw [separator]
        exact .separator semicolon
      · rw [tag]
        exact .typeTag semicolon annotating named announced
    next other =>
      split
      next minus => exact .negative minus.1 minus.2.1 minus.2.2
      split
      next found => exact .operator found
      next free =>
        split
        next symbol => exact .symbol symbol
        next ordinary => exact .run (by simpa using unquoted) other (by simpa using ordinary) free

theorem nextCut_cases (mode : Mode) (touching : List Char) (c : Char) (after : List Char) :
    (nextCut mode touching c after).Plain (c :: after) ∨
      ∃ type, nextCut mode touching c after = ⟨.typeTag type, 1, type.name.length⟩ ∧
        c = ';' ∧ mode = .annotating ∧ isIdentifier touching = true ∧
        announcedType? after = some type := by
  have offered := cutAt_nextCut mode touching c after
  generalize nextCut mode touching c after = cut at offered ⊢
  cases offered with
  | typeTag semicolon annotating named announced =>
      exact .inr ⟨_, rfl, semicolon, annotating, named, announced⟩
  | quoted quote =>
      have bound := quotedLength_le c after
      exact .inl ⟨by simp, rfl, by simp; omega⟩
  | negative =>
      have bound := runLength_le true after
      exact .inl ⟨by simp, rfl, by simp; omega⟩
  | run =>
      have bound := runLength_le c.isDigit after
      exact .inl ⟨by simp, rfl, by simp; omega⟩
  | operator found => exact .inl ⟨by simp, rfl, length_le_of_operator? found⟩
  | separator | symbol => exact .inl ⟨by simp, rfl, by simp⟩

end Piece

end LineScript
