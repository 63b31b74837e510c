import LineScript.Proofs.Grammar.Reading
import LineScript.Token.Classify

/-!
# Refusals point at the first hopeless token

Behind the tokens it takes, reading looks at the kind of one more token and no further.
Where it refuses, the tokens passed are whole statements and the beginning of one more,
which some continuation completes, and nothing behind the refused token matters.  A line
that ends too early is only such a beginning.
-/

namespace LineScript.Refusal.Place

/-- The place behind some more statements. -/
def skip (place : Place) (count : Nat) : Place :=
  { place with statement := place.statement + count }

theorem skip_skip (place : Place) (first second : Nat) :
    (place.skip first).skip second = place.skip (second + first) := by
  simp only [skip, Place.mk.injEq, and_true]
  omega

end LineScript.Refusal.Place

namespace LineScript.Grammar

open LineScript.Refusal (Place)

/-! ## Reading looks one token ahead -/

theorem firstKind_append_congr {rest others : List Token}
    (same : firstKind others = firstKind rest) (taken : List Token) :
    firstKind (taken ++ others) = firstKind (taken ++ rest) := by
  cases taken with
  | nil => exact same
  | cons token more => rfl

/-- A result is read off some tokens wherever a token of one kind is next, or none is. -/
def ReadsOff {α : Type} (read : Place → List Token → Except Diagnostic (α × List Token))
    (taken : List Token) (result : α) (next : Option TokenKind) : Prop :=
  ∀ place others, firstKind others = next → read place (taken ++ others) = .ok (result, others)

theorem splitTypeTag_looks_ahead {tokens rest : List Token} {tag : Option Token}
    (split : splitTypeTag tokens = (tag, rest)) :
    ∃ taken, tokens = taken ++ rest ∧
      ∀ others, firstKind others = firstKind rest →
        splitTypeTag (taken ++ others) = (tag, others) := by
  obtain ⟨phrase, rfl, rfl⟩ := tokens_of_splitTypeTag split
  refine ⟨tagTokens phrase, rfl, fun others same => ?_⟩
  cases phrase with
  | some tag => simp [tagTokens, splitTypeTag, tag.property]
  | none =>
      apply splitTypeTag_tagTokens
      rw [same]
      intro kind
      cases rest with
      | nil => contradiction
      | cons token more => simp_all [tagTokens, splitTypeTag]

theorem readsOff_splitInitializer {place : Place} {tokens rest : List Token}
    {initializer : Option Literal}
    (split : splitInitializer place tokens = .ok (initializer, rest)) :
    ∃ taken, tokens = taken ++ rest ∧
      ReadsOff splitInitializer taken initializer (firstKind rest) := by
  obtain ⟨phrase, rfl, rfl⟩ := tokens_of_splitInitializer split
  refine ⟨initializerTokens phrase, rfl, fun place others same => ?_⟩
  cases phrase with
  | some given =>
      have read : readValue place (given.literal.token :: others) =
          .ok (given.literal.literal, others) :=
        (readValue_eq_ok_iff place).mpr ⟨given.literal, rfl, rfl⟩
      simp [initializerTokens, InitializerPhrase.tokens, splitInitializer, given.assign.property,
        read]
  | none =>
      apply splitInitializer_initializerTokens
      rw [same]
      intro kind
      cases rest with
      | nil => contradiction
      | cons token more =>
          simp only [firstKind_cons, Option.some.injEq] at kind
          rw [initializerTokens, List.nil_append, splitInitializer, if_pos kind] at split
          split at split <;> simp at split

theorem readsOff_readDeclaration {place : Place} {mutability : Mutability} {keyword : Token}
    {tokens rest : List Token} {statement : Statement}
    (read : readDeclaration place mutability keyword tokens = .ok (statement, rest)) :
    ∃ taken, tokens = taken ++ rest ∧
      ReadsOff (readDeclaration · mutability keyword) taken statement (firstKind rest) := by
  cases tokens with
  | nil => contradiction
  | cons name more =>
      rw [readDeclaration] at read
      split at read
      next named =>
        split at read
        next tag behind tagged =>
          obtain ⟨tags, rfl, retagged⟩ := splitTypeTag_looks_ahead tagged
          split at read
          next initializer after initialized =>
            obtain ⟨initializers, rfl, reinitialized⟩ := readsOff_splitInitializer initialized
            obtain ⟨rfl, rfl⟩ := Prod.mk.inj (Except.ok.inj read)
            refine ⟨name :: (tags ++ initializers), by simp, fun place others same => ?_⟩
            have tagged := retagged (initializers ++ others) (firstKind_append_congr same _)
            have initialized := reinitialized place others same
            simp only [List.cons_append, List.append_assoc, readDeclaration, named, if_true,
              tagged, initialized]
          · contradiction
      · contradiction

theorem readsOff_readPrint {place : Place} {keyword : Token} {tokens rest : List Token}
    {statement : Statement}
    (read : readPrint place keyword tokens = .ok (statement, rest)) :
    ∃ taken, tokens = taken ++ rest ∧
      ReadsOff (readPrint · keyword) taken statement (firstKind rest) := by
  cases tokens with
  | nil => contradiction
  | cons token more =>
      rw [readPrint] at read
      split at read
      next argument found =>
        obtain ⟨phrase, rfl, rfl⟩ := (argument_eq_ok_iff place).mp found
        obtain ⟨rfl, rfl⟩ := Prod.mk.inj (Except.ok.inj read)
        refine ⟨[phrase.token], rfl, fun place others _ => ?_⟩
        have again := (argument_eq_ok_iff place).mpr ⟨phrase, rfl, rfl⟩
        simp only [List.cons_append, List.nil_append, readPrint, again]
      · contradiction

theorem readsOff_readStatement {place : Place} {first : Token} {tokens rest : List Token}
    {statement : Statement}
    (read : readStatement place first tokens = .ok (statement, rest)) :
    ∃ taken, tokens = taken ++ rest ∧
      ReadsOff (readStatement · first) taken statement (firstKind rest) := by
  unfold readStatement at read
  split at read
  next kind => simpa only [ReadsOff, readStatement, kind] using readsOff_readDeclaration read
  next kind => simpa only [ReadsOff, readStatement, kind] using readsOff_readDeclaration read
  next kind => simpa only [ReadsOff, readStatement, kind] using readsOff_readPrint read
  · contradiction

/-! ## Beginnings of statements -/

/-- Some tokens, but not all, of a statement from its first one on. -/
def Opens (tokens : List Token) : Prop :=
  ∃ (phrase : StatementPhrase) (more : List Token), more ≠ [] ∧ phrase.tokens = tokens ++ more

/-- A name to go on with. -/
def anyName : Terminal .identifier := ⟨⟨.identifier, "x", 0, ⟨0, 0⟩, .void⟩, rfl⟩

/-- A value to go on with. -/
def anyLiteral : LiteralPhrase :=
  ⟨⟨.trueWord, "true", 0, ⟨0, 0⟩, .bool⟩, .bool true, .trueWord rfl⟩

theorem opens_print (keyword : Terminal .printWord) : Opens [keyword.val] :=
  ⟨.print keyword (.literal anyLiteral), [anyLiteral.token], by simp, rfl⟩

theorem opens_nil : Opens [] := by
  let keyword : Terminal .printWord := ⟨⟨.printWord, "print", 0, ⟨0, 0⟩, .void⟩, rfl⟩
  exact ⟨.print keyword (.literal anyLiteral), _, List.cons_ne_nil _ _, rfl⟩

section Declarations

variable {mutability : Mutability} {keyword : Token}
  (kind : keyword.kind = declaringWord mutability)

include kind

theorem opens_keyword : Opens [keyword] :=
  ⟨.declaration ⟨mutability, keyword, kind, anyName, none, none⟩, [anyName.val], by simp, rfl⟩

theorem opens_initializer (name : Terminal .identifier) (tag : Option (Terminal .typeTag))
    (assign : Terminal .assign) :
    Opens (keyword :: name.val :: (tagTokens tag ++ [assign.val])) :=
  ⟨.declaration ⟨mutability, keyword, kind, name, tag, some ⟨assign, anyLiteral⟩⟩,
    [anyLiteral.token], by simp, by
      simp [StatementPhrase.tokens, DeclarationPhrase.tokens, initializerTokens,
        InitializerPhrase.tokens]⟩

end Declarations

/-! ## Refused statements -/

/-- How a statement is refused behind its first token: at a token that nothing behind it
makes good, or at the end of the line. -/
inductive Refused (read : Place → List Token → Except Diagnostic (Statement × List Token))
    (first : Token) (place : Place) (tokens : List Token) (diagnostic : Diagnostic) : Prop
  | atToken (passed : List Token) {behind : List Token} {token : Token} {refusal : Refusal}
      (split : tokens = passed ++ token :: behind)
      (points : diagnostic = refusal.atToken place token) (opens : Opens (first :: passed))
      (blocked : ∀ place others,
        read place (passed ++ token :: others) = .error (refusal.atToken place token))
  | atEnd {refusal : Refusal} (points : diagnostic = refusal.atEnd place)
      (opens : Opens (first :: tokens))

theorem ofToken_eq_error {place : Place} {token : Token} {diagnostic : Diagnostic}
    (refused : Literal.ofToken place token = .error diagnostic) :
    ∃ refusal : Refusal, diagnostic = refusal.atToken place token ∧
      ∀ place, Literal.ofToken place token = .error (refusal.atToken place token) := by
  cases valued : token.value with
  | ok value => simp [Literal.ofToken, valued] at refused
  | error refusal =>
      refine ⟨refusal, ?_, fun place => by rw [Literal.ofToken, valued]⟩
      rw [Literal.ofToken, valued] at refused
      exact (Except.error.inj refused).symm

theorem splitInitializer_eq_error {place : Place} {tokens : List Token} {diagnostic : Diagnostic}
    (refused : splitInitializer place tokens = .error diagnostic) :
    ∃ (assign : Terminal .assign) (behind : List Token), tokens = assign.val :: behind ∧
      (behind = [] ∧ diagnostic = Refusal.unsupportedValue.atEnd place ∨
        ∃ token after, ∃ refusal : Refusal, behind = token :: after ∧
          diagnostic = refusal.atToken place token ∧
          ∀ place others, splitInitializer place (assign.val :: token :: others) =
            .error (refusal.atToken place token)) := by
  cases tokens with
  | nil => contradiction
  | cons assign behind =>
      rw [splitInitializer] at refused
      split at refused
      next kind =>
        refine ⟨⟨assign, kind⟩, behind, rfl, ?_⟩
        cases behind with
        | nil => exact .inl ⟨rfl, (Except.error.inj refused).symm⟩
        | cons token after =>
            cases found : Literal.ofToken place token with
            | ok literal => simp [readValue, found] at refused
            | error diagnostic =>
                obtain ⟨refusal, rfl, always⟩ := ofToken_eq_error found
                refine .inr ⟨token, after, refusal, rfl, ?_, fun place others => ?_⟩
                · simp only [readValue, found] at refused
                  exact (Except.error.inj refused).symm
                · simp only [splitInitializer, kind, if_true, readValue, always]
      · contradiction

theorem readDeclaration_refused {place : Place} {mutability : Mutability} {keyword : Token}
    {tokens : List Token} {diagnostic : Diagnostic}
    (kind : keyword.kind = declaringWord mutability)
    (refused : readDeclaration place mutability keyword tokens = .error diagnostic) :
    Refused (readDeclaration · mutability keyword) keyword place tokens diagnostic := by
  cases tokens with
  | nil => exact .atEnd (Except.error.inj refused).symm (opens_keyword kind)
  | cons name more =>
      rw [readDeclaration] at refused
      split at refused
      next named =>
        split at refused
        next tag behind tagged =>
          split at refused
          · contradiction
          next uninitialized =>
            obtain rfl := Except.error.inj refused
            obtain ⟨tag, rfl, rfl⟩ := tokens_of_splitTypeTag tagged
            obtain ⟨assign, behind, rfl, ⟨rfl, points⟩ | ⟨token, after, refusal, rfl, points, blocked⟩⟩ :=
              splitInitializer_eq_error uninitialized
            · refine .atEnd points ?_
              exact opens_initializer kind ⟨name, named⟩ tag assign
            · have opens := opens_initializer kind ⟨name, named⟩ tag assign
              have split : name :: (tagTokens tag ++ assign.val :: token :: after) =
                  (name :: (tagTokens tag ++ [assign.val])) ++ token :: after := by simp
              refine .atToken _ split points opens fun place others => ?_
              have settled : firstKind (assign.val :: token :: others) ≠ some .typeTag := by
                simp [assign.property]
              have tagged := splitTypeTag_tagTokens settled tag
              simp only [List.cons_append, List.append_assoc, List.nil_append, readDeclaration,
                named, if_true, tagged, blocked]
      next named =>
        exact .atToken [] rfl (Except.error.inj refused).symm (opens_keyword kind)
          fun place others => by rw [List.nil_append, readDeclaration, if_neg named]

theorem argument_eq_error {place : Place} {token : Token} {diagnostic : Diagnostic}
    (refused : Argument.ofToken place token = .error diagnostic) :
    ∃ refusal : Refusal, diagnostic = refusal.atToken place token ∧
      ∀ place, Argument.ofToken place token = .error (refusal.atToken place token) := by
  unfold Argument.ofToken at refused
  split at refused
  next literal =>
    cases found : Literal.ofToken place token with
    | ok given => simp [found, Except.map] at refused
    | error diagnostic =>
        obtain ⟨refusal, rfl, always⟩ := ofToken_eq_error found
        rw [found] at refused
        refine ⟨refusal, (Except.error.inj refused).symm, fun place => ?_⟩
        rw [Argument.ofToken, if_pos literal, always]
        rfl
  next literal =>
    split at refused
    · contradiction
    next named =>
      refine ⟨.unsupportedArgument, (Except.error.inj refused).symm, fun place => ?_⟩
      rw [Argument.ofToken, if_neg literal, if_neg named]

theorem readPrint_refused {place : Place} {keyword : Token} {tokens : List Token}
    {diagnostic : Diagnostic} (kind : keyword.kind = .printWord)
    (refused : readPrint place keyword tokens = .error diagnostic) :
    Refused (readPrint · keyword) keyword place tokens diagnostic := by
  have opens : Opens [keyword] := opens_print ⟨keyword, kind⟩
  cases tokens with
  | nil => exact .atEnd (Except.error.inj refused).symm opens
  | cons token behind =>
      rw [readPrint] at refused
      split at refused
      · contradiction
      next unread =>
        obtain ⟨refusal, rfl, always⟩ := argument_eq_error unread
        refine .atToken [] rfl (Except.error.inj refused).symm opens fun place others => ?_
        rw [List.nil_append, readPrint, always]

theorem readStatement_of_declaringWord (mutability : Mutability) {first : Token}
    (kind : first.kind = declaringWord mutability) :
    (readStatement · first) = (readDeclaration · mutability first) := by
  funext place tokens
  cases mutability <;> rw [readStatement, kind, declaringWord]

theorem readStatement_of_printWord {first : Token} (kind : first.kind = .printWord) :
    (readStatement · first) = (readPrint · first) := by
  funext place tokens
  rw [readStatement, kind]

/-- A statement is refused at its first token, or behind it. -/
theorem readStatement_refused {place : Place} {first : Token} {tokens : List Token}
    {diagnostic : Diagnostic} (refused : readStatement place first tokens = .error diagnostic) :
    (∃ refusal : Refusal, diagnostic = refusal.atToken place first ∧
      ∀ place others, readStatement place first others = .error (refusal.atToken place first)) ∨
    Refused (readStatement · first) first place tokens diagnostic := by
  unfold readStatement at refused
  split at refused
  next kind =>
    rw [readStatement_of_declaringWord .mutable kind]
    exact .inr (readDeclaration_refused kind refused)
  next kind =>
    rw [readStatement_of_declaringWord .immutable kind]
    exact .inr (readDeclaration_refused kind refused)
  next kind =>
    rw [readStatement_of_printWord kind]
    exact .inr (readPrint_refused kind refused)
  next =>
    refine .inl ⟨_, (Except.error.inj refused).symm, fun place others => ?_⟩
    simp [readStatement]

/-! ## Refused programs -/

theorem readFrom_of_readStatement_error {place : Place} {first : Token} {tokens : List Token}
    {diagnostic : Diagnostic} (begun : first.kind ≠ .semicolon)
    (refused : readStatement place first tokens = .error diagnostic) :
    Program.readFrom place (first :: tokens) = .error diagnostic := by
  rw [Program.readFrom, if_neg begun]
  split
  next again => rw [← Except.error.inj (refused.symm.trans again)]
  next read => simp [refused] at read

/-- What is refused behind some statements is refused all the same with them. -/
def Passes (derivation : Derivation) (next : TokenKind) : Prop :=
  ∀ place others diagnostic, firstKind others = some next →
    Program.readFrom (place.skip derivation.program.length) others = .error diagnostic →
    Program.readFrom place (derivation.tokens ++ others) = .error diagnostic

theorem passes_nil (next : TokenKind) : Passes [] next := fun _ _ _ _ refused => refused

theorem Passes.semicolon {derivation : Derivation} {next : TokenKind}
    (passes : Passes derivation next) (token : Terminal .semicolon) :
    Passes (.semicolon token :: derivation) next := by
  intro place others diagnostic begins refused
  change Program.readFrom place (token.val :: (derivation.tokens ++ others)) = _
  rw [Program.readFrom, if_pos token.property]
  exact passes place others diagnostic begins refused

theorem Passes.statement {derivation : Derivation} {next : TokenKind}
    (passes : Passes derivation next) {phrase : StatementPhrase}
    (reads : ∀ place others, firstKind others = some next →
      readStatement place (phrase.tokens.head phrase.tokens_ne_nil)
        (phrase.tokens.tail ++ (derivation.tokens ++ others)) =
          .ok (phrase.statement, derivation.tokens ++ others)) :
    Passes (.statement phrase :: derivation) next := by
  intro place others diagnostic begins refused
  have places : (place.skip 1).skip derivation.program.length =
      place.skip (Derivation.program (.statement phrase :: derivation)).length :=
    place.skip_skip 1 _
  have later := passes (place.skip 1) others diagnostic begins (places ▸ refused)
  change Program.readFrom place (phrase.tokens ++ derivation.tokens ++ others) = _
  rw [← List.cons_head_tail phrase.tokens_ne_nil, List.append_assoc, List.cons_append,
    readFrom_of_readStatement phrase.head_ne_semicolon (reads place others begins)]
  exact congrArg (Except.map (phrase.statement :: ·)) later

/-- A refused program has whole statements, then one that is refused. -/
theorem readFrom_refused {place : Place} {tokens : List Token} {diagnostic : Diagnostic}
    (refused : Program.readFrom place tokens = .error diagnostic) :
    ∃ (derivation : Derivation) (first : Token) (rest : List Token),
      tokens = derivation.tokens ++ first :: rest ∧ first.kind ≠ .semicolon ∧
      readStatement (place.skip derivation.program.length) first rest = .error diagnostic ∧
      Passes derivation first.kind := by
  fun_induction Program.readFrom place tokens with
  | case1 => contradiction
  | case2 place token rest kind ih =>
      obtain ⟨derivation, first, behind, rfl, begun, refused, passes⟩ := ih refused
      exact ⟨.semicolon ⟨token, kind⟩ :: derivation, first, behind, rfl, begun, refused,
        passes.semicolon ⟨token, kind⟩⟩
  | case3 place first rest begun diagnostic' unread =>
      obtain rfl := Except.error.inj refused
      exact ⟨[], first, rest, rfl, begun, unread, passes_nil _⟩
  | case4 place token rest begun statement behind read diagnostic' unread ih =>
      obtain rfl := Except.error.inj refused
      obtain ⟨derivation, first, after, rfl, begunLater, refusedLater, passes⟩ := ih unread
      obtain ⟨phrase, tokens, rfl⟩ := tokens_of_readStatement read
      obtain ⟨taken, rfl, reads⟩ := readsOff_readStatement read
      -- The statement ends where it did, for the next token is still of the same kind.
      have spelled : phrase.tokens = token :: taken :=
        (List.append_cancel_right (by simpa using tokens)).symm
      refine ⟨.statement phrase :: derivation, first, after, ?_, begunLater, ?_,
        passes.statement fun place others same => ?_⟩
      · rw [← List.cons_append, ← spelled]
        simp [Derivation.tokens, Item.tokens]
      · rw [← refusedLater]
        congr 1
        exact (place.skip_skip 1 _).symm
      · simp only [spelled, List.head_cons, List.tail_cons]
        exact reads place _ (firstKind_append_congr same _)
  | case5 => contradiction

/-! ## Tokens that can still become a program -/

/-- Some continuation makes the tokens a program. -/
def Viable (tokens : List Token) : Prop :=
  ∃ more program, Program.ofTokens (tokens ++ more) = .ok program

theorem viable_of_opens (derivation : Derivation) {opening : List Token} (opens : Opens opening) :
    Viable (derivation.tokens ++ opening) := by
  obtain ⟨phrase, more, -, spelled⟩ := opens
  have made : derivation.tokens ++ opening ++ more =
      Derivation.tokens (derivation ++ [.statement phrase]) := by
    simp [Derivation.tokens, Item.tokens, spelled]
  refine ⟨more, Derivation.program (derivation ++ [.statement phrase]), ?_⟩
  rw [made]
  exact readFrom_derivation _ _

/-- The statement of some number begins at one index and is not yet whole at another: the
tokens before it are the statements before it. -/
structure Unfinished (tokens : List Token) (statement start stop : Nat) : Prop where
  earlier : ∃ program, Program.ofTokens (tokens.take start) = .ok program ∧
    program.length + 1 = statement
  first : ∃ token, tokens[start]? = some token ∧ token.kind ≠ .semicolon
  opens : Opens ((tokens.take stop).drop start)

theorem unfinished_of_opens (derivation : Derivation) {opening behind : List Token}
    {next : TokenKind} (opens : Opens opening) (begins : firstKind (opening ++ behind) = some next)
    (begun : next ≠ .semicolon) :
    Unfinished (derivation.tokens ++ (opening ++ behind)) (derivation.program.length + 1)
      derivation.tokens.length (derivation.tokens.length + opening.length) := by
  refine ⟨⟨derivation.program, ?_, rfl⟩, ?_, ?_⟩
  · rw [List.take_left]
    exact readFrom_derivation _ derivation
  · obtain ⟨first, head, rfl⟩ := Option.map_eq_some_iff.mp begins
    refine ⟨first, ?_, begun⟩
    rw [List.getElem?_append_right (Nat.le_refl _), Nat.sub_self, ← List.head?_eq_getElem?, head]
  · rw [← List.append_assoc, ← List.length_append, List.take_left, List.drop_left]
    exact opens

/-- A diagnostic points at a token, the first that no continuation makes good, and would be the
same whatever stood behind that token. -/
structure HopelessAt (tokens : List Token) (diagnostic : Diagnostic) (index : Nat) : Prop where
  viable : Viable (tokens.take index)
  hopeless : ¬ Viable (tokens.take (index + 1))
  settled : ∀ others, Program.ofTokens (tokens.take (index + 1) ++ others) = .error diagnostic
  points : ∃ token statement, tokens[index]? = some token ∧
    diagnostic.kind = .unreadable (some token.kind) (some token.position) statement ∧
    diagnostic.span = token.span ∧
    ∃ start ≤ index, Unfinished tokens statement start index

/-- A diagnostic points just behind the last token, where something is missing. -/
structure EndsEarly (tokens : List Token) (diagnostic : Diagnostic) : Prop where
  viable : Viable tokens
  incomplete : ∀ program, Program.ofTokens tokens ≠ .ok program
  points : ∃ last statement, tokens.getLast? = some last ∧
    diagnostic.kind = .unreadable none none statement ∧
    diagnostic.span = ⟨last.span.stop, last.span.stop + 1⟩ ∧
    ∃ start < tokens.length, Unfinished tokens statement start tokens.length

theorem not_viable_of_settled {tokens : List Token} {diagnostic : Diagnostic}
    (settled : ∀ others, Program.ofTokens (tokens ++ others) = .error diagnostic) :
    ¬ Viable tokens := by
  rintro ⟨more, program, read⟩
  rw [settled more] at read
  contradiction

theorem hopelessAt_of_blocked (derivation : Derivation) {opening behind : List Token}
    {token : Token} {refusal : Refusal} {next : TokenKind} (opens : Opens opening)
    (begins : ∀ others, firstKind (opening ++ token :: others) = some next)
    (begun : next ≠ .semicolon) (passes : Passes derivation next)
    (blocked : ∀ place others, Program.readFrom place (opening ++ token :: others) =
      .error (refusal.atToken place token)) (lineEnd : Nat) :
    HopelessAt (derivation.tokens ++ (opening ++ token :: behind))
      (refusal.atToken (Place.skip ⟨1, lineEnd⟩ derivation.program.length) token)
      (derivation.tokens.length + opening.length) := by
  have counted : (Place.skip ⟨1, lineEnd⟩ derivation.program.length).statement =
      derivation.program.length + 1 := Nat.add_comm _ _
  have unfinished := unfinished_of_opens derivation opens (begins behind) begun
  have settled : ∀ others,
      Program.ofTokens (derivation.tokens ++ opening ++ [token] ++ others) =
        .error (refusal.atToken (Place.skip ⟨1, lineEnd⟩ derivation.program.length) token) := by
    intro others
    simp only [List.append_assoc, List.singleton_append]
    exact passes _ _ _ (begins others) (blocked _ others)
  rw [← List.append_assoc, ← List.length_append] at unfinished ⊢
  have upTo : (derivation.tokens ++ opening ++ token :: behind).take
      ((derivation.tokens ++ opening).length + 1) = derivation.tokens ++ opening ++ [token] := by
    rw [List.take_length_add_append]
    rfl
  refine ⟨?_, ?_, ?_, token, derivation.program.length + 1, ?_, ?_, rfl,
    derivation.tokens.length, ?_, unfinished⟩
  · rw [List.take_left]
    exact viable_of_opens derivation opens
  · rw [upTo]
    exact not_viable_of_settled settled
  · rw [upTo]
    exact settled
  · rw [List.getElem?_append_right (Nat.le_refl _), Nat.sub_self, List.getElem?_cons_zero]
  · rw [← counted]
    rfl
  · simp

theorem endsEarly_of_opens (derivation : Derivation) {opening : List Token} {refusal : Refusal}
    {next : TokenKind} (opens : Opens opening) (begins : firstKind opening = some next)
    (begun : next ≠ .semicolon) {place : Place}
    (counted : place.statement = derivation.program.length + 1)
    (placed : place.lineEnd = Program.lineEnd (derivation.tokens ++ opening))
    (refused : Program.ofTokens (derivation.tokens ++ opening) = .error (refusal.atEnd place)) :
    EndsEarly (derivation.tokens ++ opening) (refusal.atEnd place) := by
  have nonempty : opening ≠ [] := by
    rintro rfl
    contradiction
  have alone : firstKind (opening ++ []) = some next := by rwa [List.append_nil]
  have unfinished := unfinished_of_opens derivation opens alone begun
  rw [List.append_nil, ← List.length_append] at unfinished
  refine ⟨viable_of_opens derivation opens, ?_, ?_⟩
  · intro program read
    rw [refused] at read
    contradiction
  · have ended : (derivation.tokens ++ opening).getLast? = some (opening.getLast nonempty) := by
      rw [List.getLast?_append, List.getLast?_eq_some_getLast nonempty]
      rfl
    refine ⟨_, derivation.program.length + 1, ended, ?_, ?_, _, ?_, unfinished⟩
    · rw [← counted]
      rfl
    · rw [Program.lineEnd, ended] at placed
      exact congrArg Span.single placed
    · simpa [List.length_pos_iff] using nonempty

/-- A refusal points at the first token that no continuation makes good, or at the end of tokens
that are only the beginning of a program.  The statement it counts is the one that is not
finished there. -/
theorem ofTokens_error_at_first_hopeless (tokens : List Token) (diagnostic : Diagnostic)
    (refused : Program.ofTokens tokens = .error diagnostic) :
    (∃ index, HopelessAt tokens diagnostic index) ∨ EndsEarly tokens diagnostic := by
  obtain ⟨derivation, first, rest, rfl, begun, unread, passes⟩ := readFrom_refused refused
  rcases readStatement_refused unread with ⟨refusal, rfl, always⟩ | refusedLater
  · have blocked : ∀ place others, Program.readFrom place ([] ++ first :: others) =
        .error (refusal.atToken place first) := fun place others =>
      readFrom_of_readStatement_error begun (always place others)
    exact .inl ⟨_, hopelessAt_of_blocked derivation opens_nil (fun _ => rfl) begun passes blocked _⟩
  · cases refusedLater with
    | @atToken passed behind token refusal split points opens blocked =>
        subst split points
        have blocked : ∀ place others,
            Program.readFrom place ((first :: passed) ++ token :: others) =
              .error (refusal.atToken place token) := fun place others =>
          readFrom_of_readStatement_error begun (blocked place others)
        exact .inl ⟨_, hopelessAt_of_blocked derivation opens (fun _ => rfl) begun passes blocked _⟩
    | @atEnd refusal points opens =>
        subst points
        exact .inr (endsEarly_of_opens derivation opens rfl begun (Nat.add_comm _ _) rfl refused)

theorem ofTokens_error_at_integer_out_of_range :
    let tokens := Token.ofLine .annotating "print 1; let x = 9223372036854775808 let"
    let numeral : Token := ⟨.number, "9223372036854775808", 6, ⟨17, 36⟩, .int⟩
    let diagnostic := (Refusal.integerOutOfRange numeral.lexeme).atToken ⟨2, 40⟩ numeral
    Program.ofTokens tokens = .error diagnostic ∧ ∃ index, HopelessAt tokens diagnostic index := by
  intro tokens numeral diagnostic
  have refused : Program.ofTokens tokens = .error diagnostic := by decide +kernel
  refine ⟨refused, ?_⟩
  rcases ofTokens_error_at_first_hopeless tokens diagnostic refused with hopeless | early
  · exact hopeless
  · obtain ⟨_, _, -, kind, -⟩ := early.points
    simp [diagnostic, Refusal.atToken] at kind

end LineScript.Grammar
