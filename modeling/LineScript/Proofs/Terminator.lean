import LineScript.Proofs.Fusion
import LineScript.Proofs.Grammar.Viability
import LineScript.Proofs.Joining

/-!
# Lines joined by a semicolon

A semicolon between two lines that are read parts them as a blank does.  There is one
exception: where the first line ends with a type tag, the semicolon touches it, and what
was a tag is a word with which no statement begins.
-/

namespace LineScript

open LineScript.Piece LineScript.Text

/-! ## Pieces around the semicolon -/

namespace Piece

/-- A semicolon belongs to the word it touches, which then names no type. -/
theorem announcedType?_append_semicolon (type : TypeName) (second : List Char) :
    announcedType? (type.name.toList ++ ';' :: second) = none := by
  have solid : ∀ c ∈ type.name.toList, (!isBlank c) = true := fun c member => by
    simp [not_isBlank_of_mem_typeName member]
  have semicolon : isBlank ';' = false := by decide
  rw [Option.eq_none_iff_forall_ne_some]
  intro other announced
  have spelled := (announcedType?_eq_some_iff.mp announced).2
  apply barrier_semicolon.wordless other
  rw [spelled, List.takeWhile_append_of_pos solid]
  simp [semicolon]

theorem scanFrom_separator (mode : Mode) (position : Nat) (touching : List Char)
    {second : List Char} (unannounced : announcedType? second = none) :
    scanFrom mode position touching (';' :: second) =
      ⟨.text ";", ⟨position, position + 1⟩⟩ :: scanFrom mode (position + 1) [] second := by
  have cut : nextCut mode touching ';' second = ⟨.separator, 0, 1⟩ := by
    simp [nextCut_semicolon, separatorCut, unannounced]
  rw [scanFrom_of_solid mode position touching (by decide), cut]
  rfl

theorem scan_append_semicolon {mode : Mode} {first second : String}
    (unannounced : announcedType? second.toList = none)
    (firm : ∀ piece, (scan mode first).getLast? = some piece → ¬ piece.Loose ';' first.length) :
    scan mode (first ++ ";" ++ second) =
      scan mode first ++ ⟨.text ";", ⟨first.length, first.length + 1⟩⟩ ::
        (scan mode second).map (shift (first.length + 1)) := by
  have separated := fun position touching =>
    scanFrom_separator mode position touching unannounced
  have split := scanFrom_append_barrier barrier_semicolon
    (fun position touching => (separated position touching).trans (separated position []).symm)
    0 [] first.toList (by simpa only [scan, Nat.zero_add, String.length_toList] using firm)
  rw [separated, Nat.zero_add, String.length_toList, ← Nat.zero_add (first.length + 1),
    scanFrom_shift] at split
  simpa [scan] using split

/-- The type tag at the end of a line is a word of its own when a semicolon follows. -/
theorem scan_append_semicolon_of_tag {mode : Mode} {first : String} {type : TypeName} {start : Nat}
    (last : (scan mode first).getLast? = some ⟨.typeTag type, ⟨start, first.length⟩⟩)
    (second : String) :
    ∃ earlier mark more,
      scan mode first = earlier ++ [⟨.typeTag type, ⟨start, first.length⟩⟩] ∧
      scan mode (first ++ ";" ++ second) = earlier ++ ⟨.text ";", mark⟩ ::
        ⟨.text type.name, ⟨start, first.length⟩⟩ :: more := by
  obtain ⟨earlier, scanned⟩ := List.getLast?_eq_some_iff.mp last
  obtain ⟨before, touched, c, after, solid, alone, reached, resumes⟩ :=
    scanFrom_append_resumes barrier_semicolon earlier scanned
  rw [scanFrom_of_solid mode before touched solid] at alone
  have piece := (List.cons.inj alone).1
  rcases nextCut_cases mode touched c after with plain | ⟨other, cut, rfl, rfl, named, announced⟩
  · rw [Cut.piece, Shape.content_of_no_tag plain.no_tag] at piece
    simp at piece
  · obtain ⟨behind, rfl⟩ := exists_append_of_announcedType? announced
    rw [cut] at piece
    simp only [Cut.piece, Cut.stop, Shape.content, Piece.mk.injEq, Content.typeTag.injEq,
      Span.mk.injEq] at piece
    obtain ⟨rfl, rfl, finish⟩ := piece
    simp only [List.length_cons, List.length_append, String.length_toList] at reached
    obtain rfl : behind = [] := List.length_eq_zero_iff.mp (by omega)
    have word := scanFrom_name .annotating (before + 1) [] (isIdentifier_typeName other)
      (endsRuns_semicolon second.toList)
    have whole := resumes second.toList
    rw [List.append_nil, List.cons_append, scanFrom_separator _ _ _
      (announcedType?_append_semicolon other second.toList), word, String.ofList_toList,
      String.length_toList, finish] at whole
    refine ⟨earlier, _, _, scanned, Eq.trans ?_ whole⟩
    simp [scan]

end Piece

/-! ## Programs before the semicolon -/

namespace Grammar

theorem Settled.append_tokens {others : List Token} (settled : Settled others)
    (derivation : Derivation) : Settled (derivation.tokens ++ others) := by
  cases derivation with
  | nil => exact settled
  | cons item rest =>
      rw [Derivation.tokens, List.flatMap_cons, List.append_assoc]
      exact item.settled_append _

theorem passes_of_settled (derivation : Derivation) {next : TokenKind} (untagged : next ≠ .typeTag)
    (unassigned : next ≠ .assign) : Passes derivation next := by
  induction derivation with
  | nil => exact passes_nil next
  | cons item rest ih =>
      cases item with
      | semicolon token => exact ih.semicolon token
      | statement phrase =>
          refine ih.statement fun place others begins => ?_
          have settled : Settled others := by
            rw [Settled, begins]
            exact ⟨by simp [untagged], by simp [unassigned]⟩
          exact readStatement_tokens place (settled.append_tokens rest) phrase

theorem readFrom_identifier (place : Refusal.Place) {word : Token}
    (kind : word.kind = .identifier) (more : List Token) :
    Program.readFrom place (word :: more) =
      .error ((Refusal.badStart false).atToken place word) := by
  apply readFrom_of_readStatement_error
  · simp [kind]
  · simp [readStatement, kind, TokenKind.isReserved]

theorem ArgumentPhrase.kind_ne_typeTag (phrase : ArgumentPhrase) :
    phrase.token.kind ≠ .typeTag := by
  cases phrase with
  | literal phrase =>
      intro kind
      have literal := phrase.denotes.isLiteral
      rw [show phrase.token.kind = .typeTag from kind] at literal
      contradiction
  | identifier name | reference name => simp [token, name.property]

theorem Item.exists_of_tag {item : Item} {earlier : List Token} {tag : Token}
    (spelled : item.tokens = earlier ++ [tag]) (kind : tag.kind = .typeTag) :
    ∃ shorter : Item, shorter.tokens = earlier := by
  have last : item.tokens.getLast? = some tag := by rw [spelled, List.getLast?_concat]
  cases item with
  | semicolon terminal =>
      obtain rfl : terminal.val = tag := by simpa [tokens] using last
      simp [terminal.property] at kind
  | statement phrase =>
      cases phrase with
      | print keyword argument =>
          obtain rfl : argument.token = tag := by simpa [tokens, StatementPhrase.tokens] using last
          exact absurd kind argument.kind_ne_typeTag
      | declaration declared =>
          obtain ⟨mutability, keyword, isKeyword, name, own, initializer⟩ := declared
          cases initializer with
          | some phrase =>
              obtain rfl : phrase.literal.token = tag := by
                cases own <;> simpa [tokens, StatementPhrase.tokens, DeclarationPhrase.tokens,
                  tagTokens, initializerTokens, InitializerPhrase.tokens] using last
              exact absurd kind (ArgumentPhrase.literal phrase.literal).kind_ne_typeTag
          | none =>
              cases own with
              | none =>
                  obtain rfl : name.val = tag := by
                    simpa [tokens, StatementPhrase.tokens, DeclarationPhrase.tokens, tagTokens,
                      initializerTokens] using last
                  simp [name.property] at kind
              | some own =>
                  have parts : [keyword, name.val] ++ [own.val] = earlier ++ [tag] := spelled
                  exact ⟨.statement (.declaration ⟨mutability, keyword, isKeyword, name, none, none⟩),
                    (List.append_inj' parts rfl).1⟩

/-- What is left of a program without the type tag at its end is a program. -/
theorem Derivation.exists_of_tag {derivation : Derivation} {earlier : List Token} {tag : Token}
    (spelled : derivation.tokens = earlier ++ [tag]) (kind : tag.kind = .typeTag) :
    ∃ shorter : Derivation, shorter.tokens = earlier := by
  rcases List.eq_nil_or_concat derivation with rfl | ⟨before, item, rfl⟩
  · simp [Derivation.tokens] at spelled
  · obtain ⟨start, last, whole⟩ := (List.eq_nil_or_concat item.tokens).resolve_left item.tokens_ne_nil
    rw [List.concat_eq_append] at whole
    have parts : Derivation.tokens before ++ start ++ [last] = earlier ++ [tag] := by
      rw [← spelled, List.append_assoc, ← whole]
      simp [Derivation.tokens]
    obtain ⟨rfl, same⟩ := List.append_inj' parts rfl
    obtain rfl := List.singleton_inj.mp same
    obtain ⟨shorter, rfl⟩ := Item.exists_of_tag whole kind
    exact ⟨before ++ [shorter], by simp [Derivation.tokens]⟩

end Grammar

/-! ## Tokens of the joined line -/

namespace Token

def semicolon (position : Nat) (span : Span) : Token := ⟨.semicolon, ";", position, span, .void⟩

/-- The word of a type where it is no tag. -/
def typeWord (type : TypeName) (position : Nat) (span : Span) : Token :=
  ⟨.identifier, type.name, position, span, .void⟩

theorem classify_semicolon (position : Nat) (span : Span) :
    classify position ⟨.text ";", span⟩ = semicolon position span := by
  have kind : kindOfText ";" = (.semicolon, .void) := by decide +kernel
  have plain : referenceName? ";".toList = none := by decide
  simp only [classify, plain, kind, semicolon]

theorem classify_typeName (type : TypeName) (position : Nat) (span : Span) :
    classify position ⟨.text type.name, span⟩ = typeWord type position span := by
  have kind : kindOfText type.name = (.identifier, .void) := by cases type <;> decide +kernel
  have plain : referenceName? type.name.toList = none := by cases type <;> decide
  simp only [classify, plain, kind, typeWord]

theorem ofLine_append_semicolon {mode : Mode} {first second : String}
    (unannounced : announcedType? second.toList = none)
    (firm : ∀ piece, (scan mode first).getLast? = some piece → ¬ piece.Loose ';' first.length) :
    ofLine mode (first ++ ";" ++ second) =
      ofLine mode first ++
        semicolon (ofLine mode first).length ⟨first.length, first.length + 1⟩ ::
          (ofLine mode second).map
            (·.relocate (.shift ((ofLine mode first).length + 1) (first.length + 1))) := by
  have behind : ∀ position places : Nat, position + 1 + places = position + (places + 1) := by omega
  simp only [ofLine, scan_append_semicolon unannounced firm, List.mapIdx_append, List.mapIdx_cons,
    List.length_mapIdx, classify_semicolon, Nat.zero_add, behind, Token.mapIdx_classify_shift]

theorem ofLine_append_semicolon_of_tag {mode : Mode} {first : String} {type : TypeName}
    {start : Nat}
    (last : (scan mode first).getLast? = some ⟨.typeTag type, ⟨start, first.length⟩⟩)
    (second : String) :
    ∃ earlier tag mark more, ofLine mode first = earlier ++ [tag] ∧ tag.kind = .typeTag ∧
      ofLine mode (first ++ ";" ++ second) = earlier ++ semicolon earlier.length mark ::
        typeWord type (earlier.length + 1) ⟨start, first.length⟩ :: more := by
  obtain ⟨earlier, mark, more, scanned, joined⟩ := scan_append_semicolon_of_tag last second
  refine ⟨earlier.mapIdx classify, classify earlier.length ⟨.typeTag type, ⟨start, first.length⟩⟩,
    mark, more.mapIdx fun position => classify (position + 1 + 1 + earlier.length), ?_, rfl, ?_⟩
  · simp [ofLine, scanned]
  · simp only [ofLine, joined, List.mapIdx_append, List.mapIdx_cons, classify_semicolon,
      classify_typeName, List.length_mapIdx, Nat.zero_add, Nat.add_comm 1]

end Token

/-! ## Programs of the joined line -/

theorem announcedType?_of_read {mode : Mode} {line : String} {program : Program}
    (read : Program.ofTokens (Token.ofLine mode line) = .ok program) :
    announcedType? line.toList = none := by
  rw [Option.eq_none_iff_forall_ne_some]
  intro type announced
  obtain ⟨behind, spelled⟩ := exists_append_of_announcedType? announced
  rw [spelled] at announced
  have gap := (announcedType?_append_iff.mp announced).2
  have scanned := scanFrom_name mode 0 [] (isIdentifier_typeName type) gap.endsRuns
  rw [← spelled, ← scan, String.ofList_toList] at scanned
  rw [Token.ofLine, scanned, List.mapIdx_cons, Token.classify_typeName, Program.ofTokens,
    Grammar.readFrom_identifier _ rfl] at read
  contradiction

namespace Program

/-- Places of tokens are not kept in a program. -/
theorem relocate_shift (program : Program) (places others columns : Nat) :
    program.relocate (.shift places columns) = program.relocate (.shift others columns) :=
  rfl

theorem ofTokens_append_semicolon {mode : Mode} {first second : String} {program next : Program}
    (read : ofTokens (Token.ofLine mode first) = .ok program)
    (nextRead : ofTokens (Token.ofLine mode second) = .ok next)
    (firm : ∀ piece, (scan mode first).getLast? = some piece → ¬ piece.Loose ';' first.length) :
    ofTokens (Token.ofLine mode (first ++ ";" ++ second)) =
      .ok (program ++
        next.relocate (.shift (Token.ofLine mode first).length (first.length + 1))) := by
  have separator (position : Nat) (span : Span) :
      ofTokens [Token.semicolon position span] = .ok [] := by
    simp [ofTokens, readFrom, Token.semicolon]
  rw [Token.ofLine_append_semicolon (announcedType?_of_read nextRead) firm,
    relocate_shift next _ ((Token.ofLine mode first).length + 1)]
  exact ofTokens_append read (ofTokens_append (separator _ _)
    ((ofTokens_relocate_eq_ok_iff _).mpr ⟨next, nextRead, rfl⟩))

/-- The tokens up to the word that was a tag are the beginning of no program. -/
theorem ofTokens_append_semicolon_of_tag {mode : Mode} {first : String} {program : Program}
    (read : ofTokens (Token.ofLine mode first) = .ok program) {type : TypeName} {start : Nat}
    (last : (scan mode first).getLast? = some ⟨.typeTag type, ⟨start, first.length⟩⟩)
    (second : String) :
    ∃ place, ofTokens (Token.ofLine mode (first ++ ";" ++ second)) =
      .error ((Refusal.badStart false).atToken place
        (.typeWord type (Token.ofLine mode first).length ⟨start, first.length⟩)) := by
  obtain ⟨earlier, tag, mark, more, tokens, kind, joined⟩ :=
    Token.ofLine_append_semicolon_of_tag last second
  obtain ⟨derivation, derives, -⟩ := Grammar.derivation_of_readFrom read
  obtain ⟨shorter, rfl⟩ := Grammar.Derivation.exists_of_tag (derives.trans tokens) kind
  -- The semicolon is read over, and then the word is the first of a statement.
  let separated : Grammar.Derivation :=
    shorter ++ [.semicolon ⟨.semicolon shorter.tokens.length mark, rfl⟩]
  have split : ∀ others, shorter.tokens ++ Token.semicolon shorter.tokens.length mark :: others =
      separated.tokens ++ others := by
    simp [separated, Grammar.Derivation.tokens, Grammar.Item.tokens]
  have passes : Grammar.Passes separated .identifier :=
    Grammar.passes_of_settled separated (by decide) (by decide)
  rw [joined, tokens, List.length_append, List.length_singleton, split]
  exact ⟨_, passes _ _ _ rfl (Grammar.readFrom_identifier _ rfl more)⟩

end Program

/-! ## What the joined line does -/

/-- Two lines that are read, joined by a semicolon.  If a type tag ends the first, the whole is
rejected at the word of the type.  Otherwise the whole does what the lines joined by a
space do, and its tokens are theirs with the semicolon between them. -/
theorem interpret_append_semicolon (mode : Mode) (first second : String) (scope : Scope)
    (firstRead : ∀ diagnostic, (interpret mode first scope).outcome ≠ .rejected diagnostic)
    (secondRead : ∀ diagnostic, (interpret mode second scope).outcome ≠ .rejected diagnostic) :
    let whole := interpret mode (first ++ ";" ++ second) scope
    let spaced := interpret mode (first ++ " " ++ second) scope
    let before := (interpret mode first scope).tokens
    let after := (interpret mode second scope).tokens.map
      (·.relocate (.shift before.length (first.length + 1)))
    (∀ type start, (scan mode first).getLast? = some ⟨.typeTag type, ⟨start, first.length⟩⟩ →
      whole.scope = scope ∧ ∃ diagnostic statement, whole.outcome = .rejected diagnostic ∧
        diagnostic.kind = .unreadable (some .identifier) (some before.length) statement ∧
        diagnostic.span = ⟨start, first.length⟩) ∧
    ((∀ type start, (scan mode first).getLast? ≠ some ⟨.typeTag type, ⟨start, first.length⟩⟩) →
      whole.outcome = spaced.outcome ∧ whole.scope = spaced.scope ∧
      spaced.tokens = before ++ after ∧
      whole.tokens = before ++ .semicolon before.length ⟨first.length, first.length + 1⟩ ::
        after.map (·.relocate (.shift 1 0))) := by
  intro whole spaced before after
  obtain ⟨program, read⟩ := exists_program_of_not_rejected firstRead
  obtain ⟨next, nextRead⟩ := exists_program_of_not_rejected secondRead
  have before_eq : before = Token.ofLine mode first := by simp only [before, interpret_of_ok read]
  have after_eq : after = (Token.ofLine mode second).map
      (·.relocate (.shift (Token.ofLine mode first).length (first.length + 1))) := by
    simp only [after, before_eq, interpret_of_ok nextRead]
  constructor
  · intro type start last
    obtain ⟨place, refused⟩ := Program.ofTokens_append_semicolon_of_tag read last second
    have whole_eq : whole = _ := interpret_of_error refused scope
    rw [whole_eq, before_eq]
    exact ⟨rfl, _, _, rfl, rfl, rfl⟩
  · intro untagged
    have known : ∀ token ∈ Token.ofLine mode first, token.kind ≠ .unknown := fun _ member =>
      Token.known_of_read read member
    have firm : ∀ piece, (scan mode first).getLast? = some piece →
        ¬ piece.Loose ';' first.length := by
      rintro piece last (unclosed | ⟨-, type, start, rfl⟩)
      · exact not_unclosed_of_known known last unclosed
      · exact untagged type start last
    have blank : isBlank ' ' = true := by decide
    have whole_eq : whole = _ :=
      interpret_of_ok (Program.ofTokens_append_semicolon read nextRead firm) scope
    have spaced_eq : spaced = _ :=
      interpret_of_ok (Program.ofTokens_append_blank blank read nextRead) scope
    rw [whole_eq, spaced_eq, before_eq, after_eq]
    refine ⟨rfl, rfl, Token.ofLine_append_blank blank mode first second known, ?_⟩
    rw [Token.ofLine_append_semicolon (announcedType?_of_read nextRead) firm, List.map_map]
    rfl

theorem interpret_append_semicolon_at_tag :
    let read := fun line => ∀ diagnostic,
      (interpret .annotating line .empty).outcome ≠ .rejected diagnostic
    (read "let x;int" ∧ read "let x;int " ∧ read "print x") ∧
    (∃ diagnostic statement,
      (interpret .annotating ("let x;int" ++ ";" ++ "print x") .empty).outcome =
        .rejected diagnostic ∧
      diagnostic.kind = .unreadable (some .identifier) (some 3) statement ∧
      diagnostic.span = ⟨6, 9⟩) ∧
    (interpret .annotating ("let x;int " ++ ";" ++ "print x") .empty).outcome =
      (interpret .annotating ("let x;int " ++ " " ++ "print x") .empty).outcome := by
  intro read
  have tagged : Program.ofTokens (Token.ofLine .annotating "let x;int") =
      .ok [.declare ⟨.mutable, "x", some .int, none⟩ ⟨0, 9⟩] := by decide +kernel
  have apart : Program.ofTokens (Token.ofLine .annotating "let x;int ") =
      .ok [.declare ⟨.mutable, "x", some .int, none⟩ ⟨0, 9⟩] := by decide +kernel
  have printed : Program.ofTokens (Token.ofLine .annotating "print x") =
      .ok [.print (.named "x" ⟨6, 7⟩) ⟨0, 7⟩] := by decide +kernel
  have last : (scan .annotating "let x;int").getLast? = some ⟨.typeTag .int, ⟨6, 9⟩⟩ := by
    decide +kernel
  have lastApart : (scan .annotating "let x;int ").getLast? = some ⟨.typeTag .int, ⟨6, 9⟩⟩ := by
    decide +kernel
  have secondRead : read "print x" := not_rejected_of_read printed .empty
  have atTag := interpret_append_semicolon .annotating "let x;int" "print x" .empty
    (not_rejected_of_read tagged .empty) secondRead
  have behindBlank := interpret_append_semicolon .annotating "let x;int " "print x" .empty
    (not_rejected_of_read apart .empty) secondRead
  refine ⟨⟨not_rejected_of_read tagged _, not_rejected_of_read apart _, secondRead⟩, ?_, ?_⟩
  · have positions : (interpret .annotating "let x;int" .empty).tokens.length = 3 := by
      rw [interpret_of_ok tagged]
      decide +kernel
    have refused := (atTag.1 .int 6 last).2
    rwa [positions] at refused
  · refine (behindBlank.2 fun type start => ?_).1
    have later : 9 ≠ "let x;int ".length := by decide
    simp [lastApart, later]

end LineScript
