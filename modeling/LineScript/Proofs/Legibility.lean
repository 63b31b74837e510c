import LineScript.Proofs.ReadBack

/-!
# Programs that are read can be written

Whatever stands on a line, the tokens cut off it are no more than what writing needs: a
name is no keyword, a type tag is one that can be written, a quoted text does not hold its
own mark, and a fraction has digits on both sides of its point.  So every program that is
read off a line can be written, and one that is read while terminating has no type tags.
-/

namespace LineScript

open LineScript.Text

namespace Piece

/-! ## Texts that are cut off a line -/

/-- A text as the next cut takes it: the first mark that can close a quoted text does, and
no other text ends in a point but the point itself. -/
structure WellCut (chars : List Char) : Prop where
  closed : ∀ mark rest, chars = mark :: rest → isQuote mark = true → mark ∉ rest.dropLast
  pointless : (∀ c ∈ chars.head?, isQuote c = false) → chars ≠ ['.'] → chars.getLast? ≠ some '.'

theorem mark_notMem_dropLast_take (mark : Char) (chars : List Char) :
    mark ∉ (chars.take (quotedLength mark chars)).dropLast := by
  induction chars with
  | nil => simp
  | cons c after ih =>
      rw [quotedLength]
      split
      · simp
      next other =>
        rw [List.take_succ_cons]
        cases taken : after.take (quotedLength mark after) with
        | nil => simp
        | cons next rest =>
            rw [taken] at ih
            rw [List.dropLast_cons_cons, List.mem_cons, not_or]
            exact ⟨Ne.symm other, ih⟩

theorem getLast?_cons_ne {c last : Char} {rest : List Char} (first : rest = [] → c ≠ last)
    (others : rest.getLast? ≠ some last) : (c :: rest).getLast? ≠ some last := by
  cases rest with
  | nil => simpa using first rfl
  | cons next rest => rwa [List.getLast?_cons_cons]

/-- A point joins a run only if a digit follows. -/
theorem getLast?_run_ne_point (whole : Bool) (chars : List Char) :
    (chars.take (runLength whole chars)).getLast? ≠ some '.' := by
  fun_induction runLength whole chars with
  | case1 => simp
  | case2 whole c after point ih =>
      -- The digit behind the point belongs to the run, so the point is not its end.
      rw [List.take_succ_cons]
      refine getLast?_cons_ne (fun empty => ?_) ih
      cases after with
      | nil => simp [beginsWithDigit] at point
      | cons d more =>
          have digit : d.isDigit = true := (Bool.and_eq_true_iff.mp point).2
          have continues : ∀ c ∈ [d], continuesIdentifier c = true := by
            simpa using continuesIdentifier_of_isDigit digit
          have taken := runLength_append_of_continues continues false more
          rw [List.singleton_append, List.length_singleton, Nat.add_comm] at taken
          rw [taken, List.take_succ_cons] at empty
          contradiction
  | case3 whole c after point ends => simp
  | case4 whole c after point goesOn ih =>
      rw [List.take_succ_cons]
      refine getLast?_cons_ne (fun _ => ?_) ih
      rintro rfl
      simp [endsRun, isSymbol, symbols] at goesOn

theorem wellCut_run {c : Char} (quote : isQuote c = false) (symbol : c ≠ '.') (whole : Bool)
    (after : List Char) : WellCut (c :: after.take (runLength whole after)) := by
  refine ⟨?_, fun _ _ => getLast?_cons_ne (fun _ => symbol) (getLast?_run_ne_point whole after)⟩
  intro mark rest same marked
  obtain ⟨rfl, -⟩ := List.cons.inj same
  rw [quote] at marked
  contradiction

theorem wellCut_single (c : Char) : WellCut [c] := by
  refine ⟨?_, fun _ other => by simpa using other⟩
  intro mark rest same _
  obtain ⟨-, rfl⟩ := List.cons.inj same
  simp

theorem wellCut_operator {operator : List Char} (member : operator ∈ operators) : WellCut operator := by
  have plain : ∀ operator ∈ operators, operator.any isQuote = false ∧
      operator.getLast? ≠ some '.' := by decide
  obtain ⟨unquoted, last⟩ := plain operator member
  refine ⟨?_, fun _ _ => last⟩
  rintro mark rest rfl marked
  rw [List.any_cons, marked, Bool.true_or] at unquoted
  contradiction

/-- Every piece that is no type tag is well cut. -/
theorem wellCut_nextCut {mode : Mode} {touching : List Char} {c : Char} {after : List Char}
    (plain : (nextCut mode touching c after).Plain (c :: after)) :
    WellCut ((c :: after).take (nextCut mode touching c after).length) := by
  have offered := cutAt_nextCut mode touching c after
  generalize nextCut mode touching c after = cut at plain offered
  cases offered with
  | quoted quote =>
      refine ⟨?_, fun unquoted => ?_⟩
      · intro mark rest same _
        obtain ⟨rfl, rfl⟩ := List.cons.inj same
        exact mark_notMem_dropLast_take c after
      · rw [unquoted c rfl] at quote
        contradiction
  | separator | symbol => exact wellCut_single c
  | @typeTag type => exact absurd rfl (plain.no_tag type)
  | negative minus =>
      subst minus
      exact wellCut_run (by decide) (by decide) true after
  | operator found =>
      obtain ⟨listed, fits⟩ := operator?_eq_some found
      rw [← List.prefix_iff_eq_take.mp fits]
      exact wellCut_operator listed
  | run bare _ ordinary _ =>
      have point : c ≠ '.' := by
        rintro rfl
        contradiction
      exact wellCut_run bare point c.isDigit after

/-- What a scan may give as a piece. -/
def Content.Cuttable (mode : Mode) : Content → Prop
  | .text spelled => WellCut spelled.toList
  | .typeTag type => mode = .annotating ∧ type ≠ .any

theorem cuttable_of_mem_scanFrom {mode : Mode} {position : Nat} {touching chars : List Char}
    {piece : Piece} (member : piece ∈ scanFrom mode position touching chars) :
    piece.content.Cuttable mode := by
  fun_induction scanFrom mode position touching chars with
  | case1 => contradiction
  | case2 position touching c after blank ih => exact ih member
  | case3 position touching c after solid cut ahead start taken ih =>
      rcases List.mem_cons.mp member with rfl | member
      · rcases nextCut_cases mode touching c after with
          plain | ⟨type, tag, -, annotating, -, announced⟩
        · have whole : ahead = c :: after := by simp [ahead, cut, plain.skipped]
          rw [Shape.content_of_no_tag plain.no_tag, Content.Cuttable, String.toList_ofList]
          simpa [taken, whole] using wellCut_nextCut plain
        · have shape : cut.shape = .typeTag type := congrArg Cut.shape tag
          rw [shape]
          exact ⟨annotating, (announcedType?_eq_some_iff.mp announced).1⟩
      · exact ih member

end Piece

/-! ## Kinds of well cut texts -/

namespace Token

open LineScript.Piece

/-- Why a text is of its kind. -/
inductive Classified (text : String) : TokenKind → Prop
  | tabled {kind : TokenKind} (member : (text, kind) ∈ keywords ++ (operatorKinds ++ symbolKinds)) :
      Classified text kind
  | number (found : numeralKind? text.toList = some .number) : Classified text .number
  | float (found : numeralKind? text.toList = some .float) : Classified text .float
  | quoted (quoted : isQuoted text.toList = true) : Classified text .string
  | name (named : isIdentifier text.toList = true) (free : keywords.lookup text = none) :
      Classified text .identifier
  | other : Classified text .unknown

theorem classified_kindOfText (text : String) : Classified text (kindOfText text).1 := by
  unfold kindOfText
  split
  next found => exact .tabled (List.mem_append_left _ (mem_of_lookup found))
  next free =>
    split
    next found => exact .tabled (List.mem_append_right _ (mem_of_lookup found))
    split
    next found =>
      rcases numeralKind?_eq_some found with rfl | rfl
      · exact .number found
      · exact .float found
    split
    next quoted => exact .quoted quoted
    split
    next named => exact .name named free
    · exact .other

theorem notMem_tables (text : String) :
    ∀ kind ∈ [TokenKind.float, .string, .identifier, .typeTag],
      (text, kind) ∉ keywords ++ (operatorKinds ++ symbolKinds) := by
  have rows : ∀ row ∈ keywords ++ (operatorKinds ++ symbolKinds),
      row.2 ∉ [TokenKind.float, .string, .identifier, .typeTag] := by decide
  exact fun kind shaped member => rows _ member shaped

/-- Numerals without their sign, by kind: digits, or digits with a point behind some of
them. -/
inductive IsNumeral : List Char → TokenKind → Prop
  | whole {digits : List Char} (digital : IsDigits digits) : IsNumeral digits .number
  | fraction {whole fraction : List Char} (digital : IsDigits whole)
      (behind : ∀ c ∈ fraction, c.isDigit = true) : IsNumeral (whole ++ '.' :: fraction) .float

theorem IsNumeral.beginsWithDigit {chars : List Char} {kind : TokenKind}
    (numeral : IsNumeral chars kind) : beginsWithDigit chars = true := by
  cases numeral with
  | whole digital => exact digital.beginsWithDigit
  | fraction digital behind => exact digital.beginsWithDigit_append _

theorem isNumeral_of_numeralKind? {chars : List Char} {kind : TokenKind}
    (unsigned : chars.head? ≠ some '-') (found : numeralKind? chars = some kind) :
    IsNumeral chars kind := by
  simp only [numeralKind?, unsigned, if_false] at found
  split at found
  next conditions =>
    obtain ⟨begins, every⟩ := Bool.and_eq_true_iff.mp conditions
    have digits : ∀ part : List Char, part ⊆ chars → part.count '.' = 0 →
        ∀ c ∈ part, c.isDigit = true := by
      intro part inside none c member
      have allowed := List.all_eq_true.mp every c (inside member)
      have other : c ≠ '.' := by
        rintro rfl
        exact List.count_eq_zero.mp none member
      simpa [other] using allowed
    split at found
    next none =>
      cases found
      refine .whole ⟨?_, digits chars (List.Subset.refl _) none⟩
      rintro rfl
      contradiction
    next one =>
      cases found
      have member : '.' ∈ chars := by
        rw [← List.count_pos_iff]
        omega
      obtain ⟨whole, fraction, rfl⟩ := List.append_of_mem member
      rw [List.count_append, List.count_cons_self] at one
      refine .fraction ⟨?_, digits whole (by simp) (by omega)⟩ (digits fraction (by simp) (by omega))
      rintro rfl
      contradiction
    · contradiction
  next => contradiction

theorem exists_unsigned_of_numeralKind? {chars : List Char} {kind : TokenKind}
    (found : numeralKind? chars = some kind) :
    ∃ unsigned, (chars = unsigned ∨ chars = '-' :: unsigned) ∧ IsNumeral unsigned kind := by
  by_cases minus : chars.head? = some '-'
  · obtain ⟨rest, rfl⟩ := List.head?_eq_some_iff.mp minus
    have begins : beginsWithDigit rest = true := by
      by_contra missing
      simp [numeralKind?, missing] at found
    rw [numeralKind?_negative begins] at found
    exact ⟨rest, .inr rfl, isNumeral_of_numeralKind? (head?_ne_minus begins) found⟩
  · exact ⟨chars, .inl rfl, isNumeral_of_numeralKind? minus found⟩

theorem isFraction_of_numeralKind? {chars : List Char} (found : numeralKind? chars = some .float)
    (wellCut : WellCut chars) : IsFraction chars := by
  have unquoted : ∀ c ∈ chars.head?, isQuote c = false := by
    intro c first
    obtain ⟨rest, rfl⟩ := List.head?_eq_some_iff.mp first
    rw [Bool.eq_false_iff]
    intro quote
    obtain ⟨digit, minus⟩ : c.isDigit = false ∧ c ≠ '-' := by
      rcases eq_of_isQuote quote with rfl | rfl <;> decide
    rw [numeralKind?_of_head digit minus] at found
    contradiction
  have last : chars.getLast? ≠ some '.' := by
    apply wellCut.pointless unquoted
    rintro rfl
    contradiction
  obtain ⟨unsigned, signed, numeral⟩ := exists_unsigned_of_numeralKind? found
  cases numeral with
  | @fraction whole fraction digital behind =>
      have nonempty : fraction ≠ [] := by
        rintro rfl
        rcases signed with rfl | rfl <;> simp [List.getLast?_cons] at last
      rcases signed with rfl | rfl
      · exact .positive digital ⟨nonempty, behind⟩
      · exact .negative digital ⟨nonempty, behind⟩

theorem Classified.isFraction {text : String} (classified : Classified text .float)
    (wellCut : WellCut text.toList) : IsFraction text.toList := by
  cases classified with
  | tabled member => exact absurd member (notMem_tables text _ (by decide))
  | float found => exact isFraction_of_numeralKind? found wellCut

theorem Classified.writable {text : String} (classified : Classified text .string)
    (wellCut : WellCut text.toList) :
    (Value.str (String.ofList text.toList.tail.dropLast)).Writable := by
  have quoted : isQuoted text.toList = true := by
    cases classified with
    | tabled member => exact absurd member (notMem_tables text _ (by decide))
    | quoted quoted => exact quoted
  cases spelled : text.toList with
  | nil =>
      rw [spelled] at quoted
      contradiction
  | cons mark rest =>
      rw [spelled, isQuoted, Bool.and_eq_true] at quoted
      have free := wellCut.closed mark rest spelled quoted.1
      rw [Value.Writable, String.toList_ofList, List.tail_cons]
      rintro ⟨double, single⟩
      rcases eq_of_isQuote quoted.1 with rfl | rfl
      · exact free double
      · exact free single

theorem Classified.named {text : String} (classified : Classified text .identifier) :
    isIdentifier text.toList = true ∧ text ∉ keywords.map (·.1) := by
  cases classified with
  | tabled member => exact absurd member (notMem_tables text _ (by decide))
  | name named free =>
      refine ⟨named, fun member => ?_⟩
      obtain ⟨row, inside, rfl⟩ := List.mem_map.mp member
      simpa using List.lookup_eq_none_iff.mp free row inside

/-- A token as it is cut off a line: what it names or denotes can be written. -/
structure Genuine (mode : Mode) (token : Token) : Prop where
  name : token.kind = .identifier →
    isIdentifier token.lexeme.toList = true ∧ token.lexeme ∉ keywords.map (·.1)
  reference : token.kind = .reference → isIdentifier token.lexeme.toList = true
  tag : token.kind = .typeTag → mode = .annotating ∧ token.inferred ≠ .any
  value : ∀ value, Grammar.Denotes token value → value.Writable

theorem isIdentifier_of_referenceName? {chars name : List Char}
    (found : referenceName? chars = some name) : isIdentifier name = true := by
  cases chars with
  | nil => contradiction
  | cons c rest =>
      rw [referenceName?] at found
      split at found
      · simp_all
      · contradiction

theorem genuine_of_classified {mode : Mode} {token : Token}
    (classified : Classified token.lexeme token.kind) (wellCut : WellCut token.lexeme.toList)
    (plain : token.kind ≠ .reference) : token.Genuine mode where
  name kind := by
    rw [kind] at classified
    exact classified.named
  reference kind := absurd kind plain
  tag kind := by
    rw [kind] at classified
    cases classified with
    | tabled member => exact absurd member (notMem_tables _ _ (by decide))
  value value denotes := by
    cases denotes with
    | integer => trivial
    | float kind read =>
        rw [kind] at classified
        exact ⟨_, classified.isFraction wellCut, read⟩
    | string kind =>
        rw [kind] at classified
        exact classified.writable wellCut
    | trueWord => trivial
    | falseWord => trivial

theorem genuine_classify {mode : Mode} (position : Nat) {piece : Piece}
    (cuttable : piece.content.Cuttable mode) : (classify position piece).Genuine mode := by
  unfold classify
  split
  next type content =>
    rw [content] at cuttable
    exact ⟨by simp, by simp, fun _ => cuttable, fun value denotes =>
      absurd denotes.isLiteral Bool.false_ne_true⟩
  next text content =>
    rw [content] at cuttable
    split
    next name found =>
      exact ⟨by simp, fun _ => by simpa using isIdentifier_of_referenceName? found, by simp,
        fun value denotes => absurd denotes.isLiteral Bool.false_ne_true⟩
    next =>
      exact genuine_of_classified (classified_kindOfText text) cuttable
        (kindOfText_ne_reference text)

theorem genuine_of_mem_ofLine {mode : Mode} {line : String} {token : Token}
    (member : token ∈ ofLine mode line) : token.Genuine mode := by
  rw [ofLine, List.mem_mapIdx] at member
  obtain ⟨position, inside, rfl⟩ := member
  exact genuine_classify position (cuttable_of_mem_scanFrom (List.getElem_mem inside))

end Token

/-! ## Statements of genuine tokens -/

/-- A statement that can be written, without a type tag if tags cannot be read. -/
def Statement.Legible (mode : Mode) : Statement → Prop
  | .declare declaration span =>
      (declare declaration span).Writable ∧
        (mode = .terminating → declaration.declaredType = none)
  | .print argument span => (print argument span).Writable

namespace Grammar

variable {mode : Mode}

theorem tagTokens_legible {tag : Option (Terminal .typeTag)}
    (genuine : ∀ token ∈ tagTokens tag, token.Genuine mode) :
    tag.map (·.val.inferred) ≠ some .any ∧
      (mode = .terminating → tag.map (·.val.inferred) = none) := by
  cases tag with
  | none => simp
  | some terminal =>
      obtain ⟨rfl, written⟩ := (genuine terminal.val List.mem_cons_self).tag terminal.property
      exact ⟨by simpa using written, by simp⟩

theorem initializerTokens_writable {initializer : Option InitializerPhrase}
    (genuine : ∀ token ∈ initializerTokens initializer, token.Genuine mode) :
    ∀ literal ∈ initializer.map (·.literal.literal), literal.value.Writable := by
  intro literal member
  obtain ⟨phrase, rfl, rfl⟩ := Option.map_eq_some_iff.mp member
  exact (genuine _ (by simp [initializerTokens, InitializerPhrase.tokens])).value _
    phrase.literal.denotes

theorem StatementPhrase.legible {phrase : StatementPhrase}
    (genuine : ∀ token ∈ phrase.tokens, token.Genuine mode) : phrase.statement.Legible mode := by
  cases phrase with
  | declaration declared =>
      simp only [StatementPhrase.tokens, DeclarationPhrase.tokens, List.forall_mem_cons,
        List.forall_mem_append] at genuine
      obtain ⟨-, nameGenuine, tagGenuine, initializerGenuine⟩ := genuine
      obtain ⟨named, unreserved⟩ := nameGenuine.name declared.name.property
      obtain ⟨taggable, untagged⟩ := tagTokens_legible tagGenuine
      exact ⟨⟨named, unreserved, taggable, initializerTokens_writable initializerGenuine⟩, untagged⟩
  | print keyword argument =>
      have argumentGenuine := genuine argument.token (by simp [StatementPhrase.tokens])
      cases argument with
      | literal phrase => exact argumentGenuine.value _ phrase.denotes
      | identifier name => exact (argumentGenuine.name name.property).1
      | reference name => exact argumentGenuine.reference name.property

theorem Derivation.legible {derivation : Derivation}
    (genuine : ∀ token ∈ derivation.tokens, token.Genuine mode) :
    ∀ statement ∈ derivation.program, statement.Legible mode := by
  intro statement member
  obtain ⟨phrase, inside, rfl⟩ := Derivation.exists_phrase_of_mem member
  apply StatementPhrase.legible
  intro token within
  exact genuine token ((Derivation.tokens_sublist_of_mem inside).subset within)

end Grammar

/-- Every statement read off a line can be written. -/
theorem Program.legible_of_read {mode : Mode} {line : String} {program : Program}
    (read : ofTokens (Token.ofLine mode line) = .ok program) :
    ∀ statement ∈ program, statement.Legible mode := by
  obtain ⟨derivation, made, rfl⟩ := Grammar.derivation_of_readFrom read
  apply Grammar.Derivation.legible
  intro token member
  exact Token.genuine_of_mem_ofLine (made ▸ member)

end LineScript
