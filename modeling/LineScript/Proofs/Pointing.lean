import LineScript.Proofs.Evaluation
import LineScript.Proofs.Grammar.Viability
import LineScript.Proofs.Session.Transcript
import LineScript.Proofs.Tiling

/-!
# Diagnostics point into their line

The tokens of a line have spans within it, none of them empty, one behind the other.
Every diagnostic takes its span from them: a refusal from one token, or from the end of
the last; a locked name from the first and the last token of its declaration; an unbound
name from the token that refers to it.
-/

namespace LineScript

/-! ## Places of tokens -/

/-- Tokens that lie in a line one behind the other, numbered from zero. -/
structure Token.Placed (line : List Char) (tokens : List Token) : Prop where
  numbered : ∀ (index : Nat) (token : Token), tokens[index]? = some token → token.position = index
  nonempty : ∀ token ∈ tokens, token.span.start < token.span.stop
  inside : ∀ token ∈ tokens, token.span.stop ≤ line.length
  ordered : tokens.Pairwise fun left right => left.span.stop ≤ right.span.start
  spelled : ∀ token ∈ tokens, line.extract token.span.start token.span.stop = token.spelling

theorem Token.placed_ofLine (mode : Mode) (line : String) :
    Placed line.toList (ofLine mode line) := by
  have tiles := Piece.scan_tiles mode line
  have spans : (ofLine mode line).map (·.span) = (Piece.scan mode line).map (·.span) := by
    apply List.ext_getElem?
    simp [ofLine, Function.comp_def, span_classify]
  -- A token has its span and its spelling from its piece.
  have piece : ∀ token ∈ ofLine mode line, ∃ piece ∈ Piece.scan mode line,
      piece.span = token.span ∧ piece.content.chars = token.spelling := by
    intro token member
    obtain ⟨position, inside, rfl⟩ := List.mem_mapIdx.mp member
    exact ⟨_, List.getElem_mem inside, (span_classify _ _).symm, (spelling_classify _ _).symm⟩
  refine ⟨?_, ?_, ?_, ?_, ?_⟩
  · intro index token found
    rw [ofLine, List.getElem?_mapIdx] at found
    obtain ⟨piece, -, rfl⟩ := Option.map_eq_some_iff.mp found
    exact position_classify index piece
  · intro token member
    obtain ⟨piece, there, span, -⟩ := piece token member
    exact span ▸ tiles.nonempty piece there
  · intro token member
    obtain ⟨piece, there, span, -⟩ := piece token member
    exact span ▸ tiles.inside piece there
  · have apart : ((ofLine mode line).map (·.span)).Pairwise fun left right =>
        left.stop ≤ right.start := by
      rw [spans]
      exact List.pairwise_map.mpr tiles.ordered
    exact List.pairwise_map.mp apart
  · intro token member
    obtain ⟨piece, there, span, spelling⟩ := piece token member
    rw [← span, ← spelling]
    exact tiles.spelled piece there

theorem Token.Placed.length_pos {line : List Char} {tokens : List Token}
    (placed : Placed line tokens) (nonempty : tokens ≠ []) : 0 < line.length := by
  obtain ⟨token, member⟩ := List.exists_mem_of_ne_nil _ nonempty
  have positive := placed.nonempty token member
  have bound := placed.inside token member
  omega

theorem Token.head_start_lt_getLast_stop {tokens : List Token} (nonempty : tokens ≠ [])
    (ordered : tokens.Pairwise fun left right => left.span.stop ≤ right.span.start)
    (positive : ∀ token ∈ tokens, token.span.start < token.span.stop) :
    (tokens.head nonempty).span.start < (tokens.getLast nonempty).span.stop := by
  have stop := positive _ (List.getLast_mem nonempty)
  cases tokens with
  | nil => contradiction
  | cons first rest =>
      have start := positive first List.mem_cons_self
      cases rest with
      | nil => exact start
      | cons second others =>
          have later : second :: others ≠ [] := List.cons_ne_nil second others
          rw [List.getLast_cons later] at stop ⊢
          have behind := (List.pairwise_cons.mp ordered).1 _ (List.getLast_mem later)
          rw [List.head_cons]
          omega

namespace Grammar

/-- A statement covers some of the line, from its first token to its last. -/
theorem StatementPhrase.span_bounds {phrase : StatementPhrase} {line : List Char}
    {tokens : List Token} (placed : Token.Placed line tokens) (part : phrase.tokens.Sublist tokens) :
    phrase.span.start < phrase.span.stop ∧ phrase.span.stop ≤ line.length :=
  ⟨Token.head_start_lt_getLast_stop phrase.tokens_ne_nil (placed.ordered.sublist part)
      fun token member => placed.nonempty token (part.subset member),
    placed.inside _ (part.subset (List.getLast_mem phrase.tokens_ne_nil))⟩

/-- What a print statement looks up is spelled by one of its tokens. -/
theorem StatementPhrase.exists_token_of_named {phrase : StatementPhrase} {name : String}
    {span place : Span} (denotes : phrase.statement = .print (.named name span) place) :
    ∃ token ∈ phrase.tokens, token.lexeme = name ∧ token.span = span := by
  cases phrase with
  | declaration declared => contradiction
  | print keyword argument =>
      obtain ⟨named, -⟩ := Statement.print.inj denotes
      cases argument with
      | literal phrase => contradiction
      | identifier token | reference token =>
          obtain ⟨rfl, rfl⟩ := Argument.named.inj named
          exact ⟨token.val, by simp [StatementPhrase.tokens, ArgumentPhrase.token], rfl, rfl⟩

end Grammar

/-! ## Where diagnostics come from -/

theorem Program.ofTokens_refused_cases {tokens : List Token} {diagnostic : Diagnostic}
    (refused : Program.ofTokens tokens = .error diagnostic) :
    (∃ (index : Nat) (token : Token), tokens[index]? = some token ∧
      ∃ (refusal : Refusal) (place : Refusal.Place), diagnostic = refusal.atToken place token) ∨
    (∃ last, tokens.getLast? = some last ∧
      ∃ (refusal : Refusal) (statement : Nat),
        diagnostic = refusal.atEnd ⟨statement, last.span.stop⟩) := by
  obtain ⟨derivation, first, rest, rfl, -, unread, -⟩ := Grammar.readFrom_refused refused
  rcases Grammar.readStatement_refused unread with ⟨refusal, points, -⟩ | behind
  · exact .inl ⟨derivation.tokens.length, first, by simp, refusal, _, points⟩
  · cases behind with
    | @atToken passed behind token refusal split points _ _ =>
        subst split
        refine .inl ⟨derivation.tokens.length + (passed.length + 1), token, ?_, refusal, _, points⟩
        rw [List.getElem?_append_right (Nat.le_add_right _ _), Nat.add_sub_cancel_left]
        simp
    | @atEnd refusal points _ =>
        have nonempty : derivation.tokens ++ first :: rest ≠ [] := by simp
        have ended := List.getLast?_eq_some_getLast nonempty
        rw [Refusal.Place.skip, lineEnd, ended] at points
        exact .inr ⟨_, ended, refusal, _, points⟩

theorem Argument.eq_named_of_noted {scope : Scope} {argument : Argument} {diagnostic : Diagnostic}
    (noted : argument.event scope = .noted diagnostic) :
    ∃ name span, argument = .named name span ∧ diagnostic = .unbound name span := by
  cases argument with
  | literal given => contradiction
  | named name span =>
      cases found : scope.get? name with
      | some entry => simp [event, found] at noted
      | none => exact ⟨name, span, rfl, by simpa [event, found] using noted.symm⟩

theorem Program.exists_reference_of_noted {scope : Scope} {program : Program}
    {diagnostic : Diagnostic} (noted : .noted diagnostic ∈ (program.evaluate scope).events) :
    ∃ name span place, .print (.named name span) place ∈ program ∧
      diagnostic = .unbound name span := by
  have keeps : program.Keeps fun _ => True := fun _ _ _ _ _ _ _ => trivial
  obtain ⟨statement, member, before, next, -, executed⟩ := keeps.exists_of_mem_events trivial noted
  rcases Statement.execute_eq_ok_cases executed with
    ⟨_, _, -, -, -, same⟩ | ⟨argument, place, rfl, -, same⟩
  · contradiction
  · obtain ⟨name, span, rfl, rfl⟩ := Argument.eq_named_of_noted same.symm
    exact ⟨name, span, place, member, rfl⟩

theorem Program.exists_declaration_of_failure {scope : Scope} {program : Program}
    {diagnostic : Diagnostic} (failed : (program.evaluate scope).failure = some diagnostic) :
    ∃ declaration span, .declare declaration span ∈ program ∧
      diagnostic = .locked declaration.name span := by
  obtain ⟨statement, member, before, executed⟩ := Program.exists_of_failure failed
  obtain ⟨declaration, span, rfl, -, same⟩ := Statement.execute_eq_error_cases executed
  exact ⟨declaration, span, member, same⟩

/-- The diagnostics of a line: those noted on the way, then the one that ended it. -/
def Interpretation.diagnostics (interpretation : Interpretation) : List Diagnostic :=
  interpretation.outcome.events.filterMap Session.notedDiagnostic? ++
    interpretation.outcome.failure.toList

/-! ## What a diagnostic covers -/

namespace Diagnostic

/-- A declaration of a name, among the statements that some tokens make up, covers a span
from its keyword to its last token. -/
def CoversDeclaration (tokens : List Token) (name : String) (span : Span) : Prop :=
  ∃ (derivation : Grammar.Derivation) (declared : Grammar.DeclarationPhrase),
    derivation.tokens = tokens ∧ .statement (.declaration declared) ∈ derivation ∧
      declared.name.val.lexeme = name ∧
      span = (Grammar.StatementPhrase.declaration declared).span

/-- The span of a diagnostic covers what it is about, in a line with some tokens.  Only that
of a line that ends early may reach behind the line, by one character. -/
def PointsInto (line : List Char) (tokens : List Token) (diagnostic : Diagnostic) : Prop :=
  diagnostic.span.start < diagnostic.span.stop ∧
    match diagnostic.kind with
    | .locked name =>
        diagnostic.span.stop ≤ line.length ∧ CoversDeclaration tokens name diagnostic.span
    | .unbound name =>
        diagnostic.span.stop ≤ line.length ∧
          (line.extract diagnostic.span.start diagnostic.span.stop = name.toList ∨
            line.extract diagnostic.span.start diagnostic.span.stop = '?' :: name.toList)
    | .unreadable (some kind) position _ =>
        diagnostic.span.stop ≤ line.length ∧
          ∃ (index : Nat) (token : Token), tokens[index]? = some token ∧ position = some index ∧
            kind = token.kind ∧ diagnostic.span = token.span
    | .unreadable none position _ =>
        position = none ∧ ∃ last, tokens.getLast? = some last ∧ last.span.stop ≤ line.length ∧
          diagnostic.span = ⟨last.span.stop, last.span.stop + 1⟩

variable {line : List Char} {tokens : List Token} (placed : Token.Placed line tokens)

include placed

theorem pointsInto_of_refused {diagnostic : Diagnostic}
    (refused : Program.ofTokens tokens = .error diagnostic) : diagnostic.PointsInto line tokens := by
  rcases Program.ofTokens_refused_cases refused with
    ⟨index, token, found, refusal, place, rfl⟩ | ⟨last, ended, refusal, statement, rfl⟩
  · have member := List.mem_of_getElem? found
    have position : some token.position = some index :=
      congrArg some (placed.numbered index token found)
    exact ⟨placed.nonempty token member, placed.inside token member,
      index, token, found, position, rfl, rfl⟩
  · have member := List.mem_of_getLast? ended
    exact ⟨Nat.lt_succ_self _, rfl, last, ended, placed.inside last member, rfl⟩

theorem pointsInto_locked {derivation : Grammar.Derivation} (derives : derivation.tokens = tokens)
    {declaration : Declaration} {span : Span}
    (member : .declare declaration span ∈ derivation.program) :
    (locked declaration.name span).PointsInto line tokens := by
  obtain ⟨phrase, there, denotes⟩ := Grammar.Derivation.exists_phrase_of_mem member
  have part := Grammar.Derivation.tokens_sublist_of_mem there
  rw [derives] at part
  obtain ⟨start, stop⟩ := Grammar.StatementPhrase.span_bounds placed part
  obtain ⟨declared, rfl, rfl, rfl⟩ := Grammar.StatementPhrase.eq_declaration_of_statement denotes
  exact ⟨start, stop, derivation, declared, derives, there, rfl, rfl⟩

theorem pointsInto_unbound {derivation : Grammar.Derivation} (derives : derivation.tokens = tokens)
    {name : String} {span place : Span}
    (member : .print (.named name span) place ∈ derivation.program) :
    (unbound name span).PointsInto line tokens := by
  obtain ⟨phrase, there, denotes⟩ := Grammar.Derivation.exists_phrase_of_mem member
  have part := Grammar.Derivation.tokens_sublist_of_mem there
  rw [derives] at part
  obtain ⟨token, own, rfl, rfl⟩ := Grammar.StatementPhrase.exists_token_of_named denotes
  have member : token ∈ tokens := part.subset own
  refine ⟨placed.nonempty token member, placed.inside token member, ?_⟩
  have spelled := placed.spelled token member
  unfold Token.spelling at spelled
  split at spelled
  · exact .inr spelled
  · exact .inl spelled

omit placed

theorem pointsInto_of_mem_diagnostics {mode : Mode} {line : String} {scope : Scope}
    {diagnostic : Diagnostic} (member : diagnostic ∈ (interpret mode line scope).diagnostics) :
    diagnostic.PointsInto line.toList (Token.ofLine mode line) := by
  have placed := Token.placed_ofLine mode line
  rw [Interpretation.diagnostics, List.mem_append, List.mem_filterMap] at member
  cases read : Program.ofTokens (Token.ofLine mode line) with
  | error refusal =>
      rw [interpret_of_error read] at member
      rcases member with ⟨event, absent, -⟩ | same
      · contradiction
      · obtain rfl : refusal = diagnostic := Option.some.inj (Option.mem_toList.mp same)
        exact pointsInto_of_refused placed read
  | ok program =>
      obtain ⟨derivation, derives, rfl⟩ := Grammar.derivation_of_readFrom read
      rw [interpret_of_ok read, Outcome.events_ofEvaluation, Outcome.failure_ofEvaluation] at member
      rcases member with ⟨event, there, own⟩ | failure
      · cases event with
        | noted other =>
            obtain rfl : other = diagnostic := Option.some.inj own
            obtain ⟨name, span, place, member, rfl⟩ := Program.exists_reference_of_noted there
            exact pointsInto_unbound placed derives member
        | declared name entry => contradiction
        | printed value => contradiction
      · obtain ⟨declaration, span, member, rfl⟩ :=
          Program.exists_declaration_of_failure (Option.mem_toList.mp failure)
        exact pointsInto_locked placed derives member

end Diagnostic

end LineScript
