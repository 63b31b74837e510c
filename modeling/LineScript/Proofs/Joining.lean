import LineScript.Proofs.Relocation
import LineScript.Proofs.Seam

/-!
# Lines joined by a blank

A line that is read as a program leaves no mark open, and no declaration of it goes on
behind its end.  So two such lines joined by any blank do what they do one after the
other; only what the second points at lies further to the right.
-/

namespace LineScript

open LineScript.Piece LineScript.Text

/-! ## Open marks are not read -/

theorem Token.kindOfText_of_leavesOpen {mark : Char} {rest : List Char}
    (leaves : LeavesOpen mark rest) :
    kindOfText (String.ofList (mark :: rest)) = (.unknown, .void) := by
  obtain ⟨quote, unclosed⟩ := leaves
  obtain ⟨alpha, digit, minus, begins⟩ : mark.isAlpha = false ∧ mark.isDigit = false ∧
      mark ≠ '-' ∧ beginsIdentifier mark = false := by
    rcases eq_of_isQuote quote with rfl | rfl <;> decide
  have member : mark ∈ (String.ofList (mark :: rest)).toList := by simp
  have notQuoted : isQuoted (mark :: rest) = false := by
    have ending : rest.getLast? ≠ some mark := fun last => unclosed (List.mem_of_getLast? last)
    simp [isQuoted, ending]
  have notName : isIdentifier (mark :: rest) = false := by simp [isIdentifier, begins]
  simp only [kindOfText, lookup_keywords_of_mem member alpha,
    lookup_signs_of_mem member (.inr quote), String.toList_ofList, numeralKind?_of_head digit minus,
    notQuoted, notName, Bool.false_eq_true, if_false]

theorem Token.classify_of_leavesOpen (position : Nat) (span : Span) {mark : Char} {rest : List Char}
    (leaves : LeavesOpen mark rest) :
    classify position ⟨.text (String.ofList (mark :: rest)), span⟩ =
      ⟨.unknown, String.ofList (mark :: rest), position, span, .void⟩ := by
  have notReference : referenceName? (mark :: rest) = none := by
    have other : mark ≠ '?' := by
      rintro rfl
      exact absurd leaves.1 (by decide)
    simp [referenceName?, other]
  simp only [classify, String.toList_ofList, notReference, kindOfText_of_leavesOpen leaves]

theorem Token.kind_classify_of_unclosed (position : Nat) {piece : Piece}
    (unclosed : piece.Unclosed) : (classify position piece).kind = .unknown := by
  obtain ⟨content, span⟩ := piece
  obtain ⟨mark, rest, rfl, leaves⟩ := unclosed
  rw [classify_of_leavesOpen position span leaves]

namespace Grammar

theorem StatementPhrase.kind_ne_unknown (phrase : StatementPhrase) {token : Token}
    (member : token ∈ phrase.tokens) : token.kind ≠ .unknown := by
  have literal : ∀ phrase : LiteralPhrase, phrase.token.kind ≠ .unknown := by
    intro phrase unknown
    have kind := phrase.denotes.isLiteral
    rw [unknown] at kind
    contradiction
  cases phrase with
  | declaration declared =>
      obtain ⟨mutability, keyword, kind, name, tag, initializer⟩ := declared
      have word : keyword.kind ≠ .unknown := by
        rw [kind]
        cases mutability <;> decide
      simp only [tokens, DeclarationPhrase.tokens, List.mem_cons, List.mem_append] at member
      rcases member with rfl | rfl | member | member
      · exact word
      · simp [name.property]
      · cases tag with
        | none => contradiction
        | some tag =>
            obtain rfl := List.mem_singleton.mp member
            simp [tag.property]
      · cases initializer with
        | none => contradiction
        | some phrase =>
            simp only [initializerTokens, InitializerPhrase.tokens, List.mem_cons,
              List.not_mem_nil, or_false] at member
            rcases member with rfl | rfl
            · simp [phrase.assign.property]
            · exact literal _
  | print keyword argument =>
      simp only [tokens, List.mem_cons, List.not_mem_nil, or_false] at member
      rcases member with rfl | rfl
      · simp [keyword.property]
      · cases argument with
        | literal phrase => exact literal phrase
        | identifier name | reference name => simp [ArgumentPhrase.token, name.property]

theorem Derivation.kind_ne_unknown (derivation : Derivation) {token : Token}
    (member : token ∈ derivation.tokens) : token.kind ≠ .unknown := by
  obtain ⟨item, -, member⟩ := List.mem_flatMap.mp member
  cases item with
  | semicolon terminal =>
      obtain rfl := List.mem_singleton.mp member
      simp [terminal.property]
  | statement phrase => exact phrase.kind_ne_unknown member

end Grammar

theorem Piece.not_unclosed_of_known {mode : Mode} {line : String}
    (known : ∀ token ∈ Token.ofLine mode line, token.kind ≠ .unknown) {piece : Piece}
    (last : (scan mode line).getLast? = some piece) : ¬ piece.Unclosed := by
  intro unclosed
  obtain ⟨position, inside, rfl⟩ := List.mem_iff_getElem.mp (List.mem_of_getLast? last)
  exact known _ (List.mem_mapIdx.mpr ⟨position, inside, rfl⟩)
    (Token.kind_classify_of_unclosed position unclosed)

theorem Token.known_of_read {mode : Mode} {line : String} {program : Program}
    (read : Program.ofTokens (ofLine mode line) = .ok program) {token : Token}
    (member : token ∈ ofLine mode line) : token.kind ≠ .unknown := by
  obtain ⟨derivation, derives, -⟩ := Grammar.derivation_of_readFrom read
  rw [← derives] at member
  exact derivation.kind_ne_unknown member

/-! ## Tokens and programs of joined lines -/

theorem Token.classify_shift (position places columns : Nat) (piece : Piece) :
    classify (position + places) (piece.shift columns) =
      (classify position piece).relocate (.shift places columns) := by
  simp only [classify, Piece.shift]
  split
  · rfl
  · split <;> rfl

theorem Token.mapIdx_classify_shift (pieces : List Piece) (places columns : Nat) :
    (pieces.map (Piece.shift columns)).mapIdx (fun position => classify (position + places)) =
      (pieces.mapIdx classify).map (·.relocate (.shift places columns)) := by
  apply List.ext_getElem?
  intro position
  simp [classify_shift, Function.comp_def]

theorem Token.ofLine_append_blank {blank : Char} (isBlank_blank : isBlank blank = true)
    (mode : Mode) (first second : String)
    (known : ∀ token ∈ ofLine mode first, token.kind ≠ .unknown) :
    ofLine mode (first ++ String.singleton blank ++ second) =
      ofLine mode first ++
        (ofLine mode second).map
          (·.relocate (.shift (ofLine mode first).length (first.length + 1))) := by
  have pieces := scan_append_blank_of_closed isBlank_blank mode first second
    fun _ last => Piece.not_unclosed_of_known known last
  simp only [ofLine, pieces, List.mapIdx_append, mapIdx_classify_shift, List.length_mapIdx]

theorem Program.ofTokens_append {tokens more : List Token} {program next : Program}
    (read : ofTokens tokens = .ok program) (nextRead : ofTokens more = .ok next) :
    ofTokens (tokens ++ more) = .ok (program ++ next) := by
  obtain ⟨derivation, rfl, rfl⟩ := Grammar.derivation_of_readFrom read
  obtain ⟨further, rfl, rfl⟩ := Grammar.derivation_of_readFrom nextRead
  have joined := Grammar.readFrom_derivation ⟨1, lineEnd (derivation.tokens ++ further.tokens)⟩
    (derivation ++ further)
  simpa [ofTokens, Grammar.Derivation.tokens, Grammar.Derivation.program] using joined

theorem Program.ofTokens_append_blank {blank : Char} (isBlank_blank : isBlank blank = true)
    {mode : Mode} {first second : String} {program next : Program}
    (read : ofTokens (Token.ofLine mode first) = .ok program)
    (nextRead : ofTokens (Token.ofLine mode second) = .ok next) :
    ofTokens (Token.ofLine mode (first ++ String.singleton blank ++ second)) =
      .ok (program ++
        next.relocate (.shift (Token.ofLine mode first).length (first.length + 1))) := by
  rw [Token.ofLine_append_blank isBlank_blank mode first second
    fun _ member => Token.known_of_read read member]
  exact ofTokens_append read ((ofTokens_relocate_eq_ok_iff _).mpr ⟨next, nextRead, rfl⟩)

/-! ## Joined lines -/

theorem exists_program_of_not_rejected {mode : Mode} {line : String} {scope : Scope}
    (read : ∀ diagnostic, (interpret mode line scope).outcome ≠ .rejected diagnostic) :
    ∃ program, Program.ofTokens (Token.ofLine mode line) = .ok program := by
  cases result : Program.ofTokens (Token.ofLine mode line) with
  | ok program => exact ⟨program, rfl⟩
  | error diagnostic =>
      rw [interpret_of_error result] at read
      exact absurd rfl (read diagnostic)

theorem Outcome.ofEvaluation_ne_rejected (evaluation : Evaluation) (diagnostic : Diagnostic) :
    ofEvaluation evaluation ≠ .rejected diagnostic := by
  unfold ofEvaluation
  cases evaluation.failure <;> simp

theorem not_rejected_of_read {mode : Mode} {line : String} {program : Program}
    (read : Program.ofTokens (Token.ofLine mode line) = .ok program) (scope : Scope)
    (diagnostic : Diagnostic) : (interpret mode line scope).outcome ≠ .rejected diagnostic := by
  rw [interpret_of_ok read]
  exact Outcome.ofEvaluation_ne_rejected _ diagnostic

/-- An outcome behind earlier events, with what it points at moved. -/
def Outcome.following (relocation : Relocation) (earlier : List Event) : Outcome → Outcome
  | .completed events => .completed (earlier ++ events.map (·.relocate relocation))
  | .rejected diagnostic => .rejected (diagnostic.relocate relocation)
  | .aborted events diagnostic =>
      .aborted (earlier ++ events.map (·.relocate relocation)) (diagnostic.relocate relocation)

theorem Outcome.ofEvaluation_eq_completed_iff {evaluation : Evaluation} {events : List Event} :
    ofEvaluation evaluation = .completed events ↔
      evaluation.failure = none ∧ evaluation.events = events := by
  unfold ofEvaluation
  cases evaluation.failure <;> simp

theorem Outcome.ofEvaluation_eq_aborted_iff {evaluation : Evaluation} {events : List Event}
    {diagnostic : Diagnostic} :
    ofEvaluation evaluation = .aborted events diagnostic ↔
      evaluation.failure = some diagnostic ∧ evaluation.events = events := by
  unfold ofEvaluation
  cases evaluation.failure <;> simp [and_comm]

theorem Outcome.following_ofEvaluation (relocation : Relocation) (earlier : List Event)
    (evaluation : Evaluation) :
    (ofEvaluation evaluation).following relocation earlier =
      ofEvaluation { evaluation.relocate relocation with
        events := earlier ++ (evaluation.relocate relocation).events } := by
  simp only [ofEvaluation, Evaluation.relocate]
  cases evaluation.failure <;> rfl

/-- Two lines that are read, joined by a blank, are one line.  If the first aborts, so does
the whole, in the same way; if it completes, the whole ends as the second does on the
scope the first leaves, with the spans and the tokens of the second moved behind
the first and the blank. -/
theorem interpret_append_blank (mode : Mode) (first second : String) (blank : Char) (scope : Scope)
    (isBlank_blank : isBlank blank = true)
    (firstRead : ∀ diagnostic, (interpret mode first scope).outcome ≠ .rejected diagnostic)
    (secondRead : ∀ diagnostic, (interpret mode second scope).outcome ≠ .rejected diagnostic) :
    let whole := interpret mode (first ++ String.singleton blank ++ second) scope
    let before := interpret mode first scope
    let after := interpret mode second before.scope
    let relocation := Relocation.shift before.tokens.length (first.length + 1)
    whole.tokens = before.tokens ++ after.tokens.map (·.relocate relocation) ∧
    (∀ events diagnostic, before.outcome = .aborted events diagnostic →
      whole.outcome = .aborted events diagnostic ∧ whole.scope = before.scope) ∧
    ∀ events, before.outcome = .completed events →
      (∀ diagnostic, after.outcome ≠ .rejected diagnostic) ∧
      whole.outcome = after.outcome.following relocation events ∧ whole.scope = after.scope := by
  intro whole before after relocation
  obtain ⟨program, read⟩ := exists_program_of_not_rejected firstRead
  obtain ⟨next, nextRead⟩ := exists_program_of_not_rejected secondRead
  have joined := Program.ofTokens_append_blank isBlank_blank read nextRead
  have before_eq : before = _ := interpret_of_ok read scope
  have after_eq : after = _ := interpret_of_ok nextRead before.scope
  have whole_eq : whole = _ := interpret_of_ok joined scope
  have moved : relocation =
      .shift (Token.ofLine mode first).length (first.length + 1) := by
    simp only [relocation, before_eq]
  rw [← moved] at whole_eq
  refine ⟨?_, ?_, ?_⟩
  · rw [whole_eq, before_eq, after_eq, moved]
    exact Token.ofLine_append_blank isBlank_blank mode first second
      fun _ member => Token.known_of_read read member
  · intro events diagnostic aborted
    rw [before_eq] at aborted ⊢
    obtain ⟨failed, -⟩ := Outcome.ofEvaluation_eq_aborted_iff.mp aborted
    rw [whole_eq, Program.evaluate_append_of_failure failed]
    exact ⟨aborted, rfl⟩
  · intro events completed
    have left : before.scope = (program.evaluate scope).scope := by rw [before_eq]
    rw [before_eq] at completed
    obtain ⟨succeeded, rfl⟩ := Outcome.ofEvaluation_eq_completed_iff.mp completed
    rw [whole_eq, after_eq, left, Program.evaluate_append succeeded, Program.evaluate_relocate]
    exact ⟨Outcome.ofEvaluation_ne_rejected _, (Outcome.following_ofEvaluation _ _ _).symm, rfl⟩

theorem interpret_append_line_feed :
    let scope := Scope.empty.bind "y" ⟨.immutable, .int, .int 1⟩
    let whole := interpret .annotating "let x;int\nprint z let y" scope
    (∀ diagnostic, (interpret .annotating "let x;int" scope).outcome ≠ .rejected diagnostic) ∧
    (∀ diagnostic, (interpret .annotating "print z let y" scope).outcome ≠ .rejected diagnostic) ∧
    whole.outcome = .aborted
      [.declared "x" ⟨.mutable, .int, .void⟩, .noted (.unbound "z" ⟨16, 17⟩)]
      (.locked "y" ⟨18, 23⟩) := by
  intro scope whole
  have read : Program.ofTokens (Token.ofLine .annotating "let x;int") =
      .ok [.declare ⟨.mutable, "x", some .int, none⟩ ⟨0, 9⟩] := by decide +kernel
  have nextRead : Program.ofTokens (Token.ofLine .annotating "print z let y") =
      .ok [.print (.named "z" ⟨6, 7⟩) ⟨0, 7⟩, .declare ⟨.mutable, "y", none, none⟩ ⟨8, 13⟩] := by
    decide +kernel
  have firstRead := not_rejected_of_read read scope
  have secondRead := not_rejected_of_read nextRead scope
  have declared : interpret .annotating "let x;int" scope =
      ⟨Token.ofLine .annotating "let x;int", .completed [.declared "x" ⟨.mutable, .int, .void⟩],
        scope.bind "x" ⟨.mutable, .int, .void⟩⟩ := by
    rw [interpret_of_ok read]
    simp [scope, Outcome.ofEvaluation, Program.evaluate, Statement.execute, Scope.declare,
      Scope.isLocked, Scope.get?_bind, Declaration.entry, Declaration.type, Declaration.value]
  have stopped : (interpret .annotating "print z let y"
      (scope.bind "x" ⟨.mutable, .int, .void⟩)).outcome =
      .aborted [.noted (.unbound "z" ⟨6, 7⟩)] (.locked "y" ⟨8, 13⟩) := by
    rw [interpret_of_ok nextRead]
    simp [scope, Outcome.ofEvaluation, Program.evaluate, Statement.execute, Argument.event,
      Scope.declare, Scope.isLocked, Scope.get?_bind]
  obtain ⟨-, -, completes⟩ := interpret_append_blank .annotating "let x;int" "print z let y" '\n'
    scope (by decide) firstRead secondRead
  rw [declared] at completes
  refine ⟨firstRead, secondRead, (completes _ rfl).2.1.trans ?_⟩
  rw [stopped]
  decide +kernel

end LineScript
