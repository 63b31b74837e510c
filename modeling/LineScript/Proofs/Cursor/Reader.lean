import LineScript.Proofs.Cursor
import LineScript.Proofs.Grammar.Viability

/-!
# Reading with a cursor

The reader goes over tokens with a cursor, and looks back at the token it took last.  That
goes wrong where no token has been taken, and some cases should not arise because the kind
of the next token has been looked at before.  Neither happens with any tokens, and the
reader reads or refuses them as a program.
-/

namespace LineScript.Cursor

open LineScript.Refusal (Place)

/-- Why reading ends before the tokens do. -/
inductive Halt where
  | refused (diagnostic : Diagnostic)
  | faulted (fault : Fault)

structure Reader where
  current : Nat
  statement : Nat
  statements : List Statement

namespace Reader

/-! ## Passes -/

def start : Reader := ⟨0, 0, []⟩

/-- A refusal at a token, or at the end of the line. -/
def describe (place : Place) (found : Option Token) (refusal : Refusal) : Diagnostic :=
  match found with
  | some token => refusal.atToken place token
  | none => refusal.atEnd place

def refuse {α : Type} (place : Place) (found : Option Token) (refusal : Refusal) :
    Except Halt α :=
  .error (.refused (describe place found refusal))

section Tokens

variable (tokens : List Token)

def check (kind : TokenKind) (current : Nat) : Bool :=
  match tokens[current]? with
  | some token => token.kind == kind
  | none => false

def advance (current : Nat) : Option Token × Nat :=
  match tokens[current]? with
  | some token => (some token, current + 1)
  | none => (none, current)

/-- The token before the cursor. -/
def lookBack (current : Nat) : Except Halt Token :=
  (previous current >>= item tokens).mapError .faulted

variable (place : Place)

/-- Take a literal.  What is no literal is refused as the caller says, but with the help
that is given for values. -/
def literal (refusal : Refusal) (current : Nat) : Except Halt (Literal × Nat) :=
  let unfit found :=
    .error (.refused { describe place found refusal with help := Refusal.unsupportedValue.help })
  match advance tokens current with
  | (some token, current) =>
      if token.kind.isLiteral then
        match token.kind with
        | .number =>
            match Numeral.int64? token.lexeme with
            | some n => return (⟨.int n, token.span⟩, current)
            | none => refuse place (some token) (.integerOutOfRange token.lexeme)
        | .float =>
            match Binary64.read? token.lexeme with
            | some x => return (⟨.float x, token.span⟩, current)
            | none => refuse place (some token) (.invalidFloat token.lexeme)
        | .string => return (⟨.str (stripMarks token.lexeme), token.span⟩, current)
        | .trueWord => return (⟨.bool true, token.span⟩, current)
        | .falseWord => return (⟨.bool false, token.span⟩, current)
        | _ => .error (.faulted .unreachable)
      else unfit (some token)
  | (none, _) => unfit none

def typeTag (current : Nat) : Option TypeName × Nat :=
  if check tokens .typeTag current then
    let (token, current) := advance tokens current
    (token.map (·.inferred), current)
  else (none, current)

def initializer (current : Nat) : Except Halt (Option Literal × Nat) :=
  if check tokens .assign current then do
    let (literal, current) ← literal tokens place .unsupportedValue (current + 1)
    return (some literal, current)
  else return (none, current)

def declaration (mutability : Mutability) (current : Nat) : Except Halt (Statement × Nat) := do
  let keyword ← lookBack tokens current
  match advance tokens current with
  | (some name, current) =>
      if name.kind = .identifier then
        let (type, current) := typeTag tokens current
        let (initializer, current) ← initializer tokens place current
        let last ← lookBack tokens current
        return (.declare ⟨mutability, name.lexeme, type, initializer⟩
          ⟨keyword.span.start, last.span.stop⟩, current)
      else refuse place (some name) (.nameExpected keyword.lexeme)
  | (none, _) => refuse place none (.nameExpected keyword.lexeme)

def argument (current : Nat) : Except Halt (Argument × Nat) :=
  match tokens[current]? with
  | some token =>
      if token.kind.isLiteral then do
        let (literal, current) ← literal tokens place .unsupportedArgument current
        return (.literal literal, current)
      else if token.kind = .identifier ∨ token.kind = .reference then
        match advance tokens current with
        | (some token, current) => return (.named token.lexeme token.span, current)
        | (none, _) => .error (.faulted .unreachable)
      else refuse place (advance tokens current).1 .unsupportedArgument
  | none => refuse place none .missingArgument

def print (current : Nat) : Except Halt (Statement × Nat) := do
  let keyword ← lookBack tokens current
  let (argument, current) ← argument tokens place current
  let last ← lookBack tokens current
  return (.print argument ⟨keyword.span.start, last.span.stop⟩, current)

def statementAt (current : Nat) : Except Halt (Statement × Nat) :=
  if check tokens .letWord current then declaration tokens place .mutable (current + 1)
  else if check tokens .setWord current then declaration tokens place .immutable (current + 1)
  else if check tokens .printWord current then print tokens place (current + 1)
  else
    let found := tokens[current]?
    refuse place found (.badStart (found.any (·.kind.isReserved)))

/-- Where the next statement is read. -/
def nextPlace (reader : Reader) : Place := ⟨reader.statement + 1, Program.lineEnd tokens⟩

def pass (reader : Reader) : Except Halt Reader :=
  if check tokens .semicolon reader.current then
    return { reader with current := reader.current + 1 }
  else do
    let (statement, current) ← statementAt tokens (nextPlace tokens reader) reader.current
    return ⟨current, reader.statement + 1, reader.statements ++ [statement]⟩

def loop : Loop Halt Reader where
  limit := tokens.length
  cursor := current
  pass := pass tokens
  stalled := .faulted .stalled

end Tokens

def parse (tokens : List Token) : Except Halt Program :=
  ((loop tokens).run start).map (·.statements)

/-! ## What the reader looks at -/

/-- The cursor stands behind one token and before others. -/
structure Stands (tokens : List Token) (current : Nat) (last : Token) (rest : List Token) :
    Prop where
  behind : lookBack tokens current = .ok last
  ahead : tokens.drop current = rest

section Tokens

variable {tokens : List Token} {current : Nat} {token last : Token} {rest : List Token}

theorem stands_of_drop (split : tokens.drop current = token :: rest) :
    Stands tokens (current + 1) token rest := by
  refine ⟨?_, drop_succ_of_drop split⟩
  rw [lookBack, previous_succ, ok_bind, item_of_drop split]
  rfl

theorem check_of_drop (split : tokens.drop current = token :: rest) (kind : TokenKind) :
    check tokens kind current = (token.kind == kind) := by
  rw [check, getElem?_of_drop split]

theorem check_at_end (split : tokens.drop current = []) (kind : TokenKind) :
    check tokens kind current = false := by
  rw [check, List.getElem?_eq_none (List.drop_eq_nil_iff.mp split)]

theorem advance_of_drop (split : tokens.drop current = token :: rest) :
    advance tokens current = (some token, current + 1) := by
  rw [advance, getElem?_of_drop split]

theorem advance_at_end (split : tokens.drop current = []) :
    advance tokens current = (none, current) := by
  rw [advance, List.getElem?_eq_none (List.drop_eq_nil_iff.mp split)]

theorem le_length_of_stands (stands : Stands tokens current last rest) :
    current ≤ tokens.length := by
  have behind := stands.behind
  cases current with
  | zero => contradiction
  | succ position =>
      rw [lookBack, previous_succ, ok_bind, item] at behind
      cases found : tokens[position]? with
      | none =>
          rw [found] at behind
          contradiction
      | some token => exact (List.getElem?_eq_some_iff.mp found).1

end Tokens

/-! ## Reading agrees -/

/-- The reader reads a value and stands behind its last token, where the value and the rest
are read off the list of tokens; and it refuses what is refused there. -/
inductive Agrees {α : Type} (tokens : List Token) (ends : α → Token → Prop) :
    Except Halt (α × Nat) → Except Diagnostic (α × List Token) → Prop
  | ok {value : α} {current : Nat} {last : Token} {rest : List Token}
      (stands : Stands tokens current last rest) (ended : ends value last) :
      Agrees tokens ends (.ok (value, current)) (.ok (value, rest))
  | refused (diagnostic : Diagnostic) :
      Agrees tokens ends (.error (.refused diagnostic)) (.error diagnostic)

section Tokens

variable {tokens : List Token} {place : Place} {current : Nat} {token last : Token}
  {rest : List Token}

theorem value_of_not_isLiteral (other : ¬ token.kind.isLiteral = true) :
    token.value = .error .unsupportedValue := by
  unfold Token.value
  split <;> simp_all [TokenKind.isLiteral]

theorem kind_of_isLiteral {kind : TokenKind} (isLiteral : kind.isLiteral = true) :
    kind = .number ∨ kind = .float ∨ kind = .string ∨ kind = .trueWord ∨ kind = .falseWord := by
  cases kind <;> simp_all [TokenKind.isLiteral]

theorem literal_of_drop (split : tokens.drop current = token :: rest) {refusal : Refusal}
    (known : token.kind.isLiteral = true ∨ refusal = .unsupportedValue) :
    literal tokens place refusal current =
      match Literal.ofToken place token with
      | .ok literal => .ok (literal, current + 1)
      | .error diagnostic => .error (.refused diagnostic) := by
  simp only [literal, advance_of_drop split, Literal.ofToken]
  by_cases isLiteral : token.kind.isLiteral = true
  · rw [if_pos isLiteral, Token.value]
    rcases kind_of_isLiteral isLiteral with kind | kind | kind | kind | kind <;> simp only [kind]
    · generalize Numeral.int64? token.lexeme = read
      cases read <;> rfl
    · generalize Binary64.read? token.lexeme = read
      cases read <;> rfl
    all_goals rfl
  · rw [if_neg isLiteral, value_of_not_isLiteral isLiteral, known.resolve_left isLiteral]
    rfl

theorem typeTag_stands (stands : Stands tokens current last rest) :
    ∃ next, typeTag tokens current = ((splitTypeTag rest).1.map (·.inferred), next) ∧
      Stands tokens next ((splitTypeTag rest).1.getD last) (splitTypeTag rest).2 := by
  have ahead := stands.ahead
  cases rest with
  | nil =>
      refine ⟨current, ?_, stands⟩
      simp [typeTag, check_at_end ahead, splitTypeTag]
  | cons token more =>
      rw [typeTag, check_of_drop ahead, splitTypeTag]
      by_cases kind : token.kind = .typeTag
      · simp only [kind, beq_self_eq_true, if_true, advance_of_drop ahead]
        exact ⟨_, rfl, stands_of_drop ahead⟩
      · simp only [beq_iff_eq, if_neg kind]
        exact ⟨_, rfl, stands⟩

/-- An initializer ends with the token of its literal, and nothing is taken without one. -/
theorem initializer_agrees (place : Place) (stands : Stands tokens current last rest) :
    Agrees tokens (fun taken final => final.span.stop =
        (taken.map fun literal : Literal => literal.span.stop).getD last.span.stop)
      (initializer tokens place current) (splitInitializer place rest) := by
  have ahead := stands.ahead
  cases rest with
  | nil =>
      simp only [initializer, check_at_end ahead, splitInitializer]
      exact .ok stands rfl
  | cons token more =>
      rw [initializer, check_of_drop ahead, splitInitializer]
      by_cases kind : token.kind = .assign
      · have behind := drop_succ_of_drop ahead
        simp only [kind, beq_self_eq_true, if_true]
        cases more with
        | nil =>
            rw [literal, advance_at_end behind, readValue]
            exact .refused _
        | cons value more =>
            rw [literal_of_drop behind (.inr rfl), readValue, Literal.ofToken]
            cases value.value with
            | ok found => exact .ok (stands_of_drop behind) rfl
            | error refusal => exact .refused _
      · simp only [beq_iff_eq, if_neg kind]
        exact .ok stands rfl

theorem declarationEnd_eq (name : Token) (tag : Option Token) (initializer : Option Literal) :
    declarationEnd name tag initializer =
      (initializer.map fun literal => literal.span.stop).getD (tag.getD name).span.stop := by
  cases initializer <;> cases tag <;> rfl

theorem declaration_agrees {keyword : Token} (stands : Stands tokens current keyword rest)
    (mutability : Mutability) :
    Agrees tokens (fun _ _ => True) (declaration tokens place mutability current)
      (readDeclaration place mutability keyword rest) := by
  have ahead := stands.ahead
  rw [declaration, stands.behind, ok_bind]
  cases rest with
  | nil =>
      simp only [advance_at_end ahead, readDeclaration]
      exact .refused _
  | cons name more =>
      simp only [advance_of_drop ahead, readDeclaration]
      by_cases kind : name.kind = .identifier
      · obtain ⟨next, tagged, stands⟩ := typeTag_stands (stands_of_drop ahead)
        have agrees := initializer_agrees place stands
        simp only [if_pos kind, tagged]
        generalize initializer tokens place next = found at agrees ⊢
        generalize splitInitializer place (splitTypeTag more).2 = read at agrees ⊢
        cases agrees with
        | refused diagnostic => exact .refused diagnostic
        | ok stands ended =>
            have finish := ended.trans (declarationEnd_eq name (splitTypeTag more).1 _).symm
            simp only [ok_bind, stands.behind, finish]
            exact .ok stands trivial
      · simp only [if_neg kind]
        exact .refused _

theorem argument_agrees (place : Place) (stands : Stands tokens current last (token :: rest)) :
    Agrees tokens (fun _ final => final = token) (argument tokens place current)
      ((Argument.ofToken place token).map (·, rest)) := by
  have ahead := stands.ahead
  rw [argument, getElem?_of_drop ahead, Argument.ofToken]
  by_cases isLiteral : token.kind.isLiteral = true
  · simp only [if_pos isLiteral, literal_of_drop ahead (.inl isLiteral)]
    cases Literal.ofToken place token with
    | ok literal => exact .ok (stands_of_drop ahead) rfl
    | error diagnostic => exact .refused diagnostic
  · simp only [if_neg isLiteral, advance_of_drop ahead]
    split
    · exact .ok (stands_of_drop ahead) rfl
    · exact .refused _

theorem print_agrees {keyword : Token} (stands : Stands tokens current keyword rest) :
    Agrees tokens (fun _ _ => True) (print tokens place current)
      (readPrint place keyword rest) := by
  rw [print, stands.behind, ok_bind]
  cases rest with
  | nil =>
      rw [argument, List.getElem?_eq_none (List.drop_eq_nil_iff.mp stands.ahead)]
      exact .refused _
  | cons token more =>
      have agrees := argument_agrees place stands
      rw [readPrint]
      generalize argument tokens place current = found at agrees ⊢
      generalize Argument.ofToken place token = read at agrees ⊢
      cases read with
      | error diagnostic =>
          cases agrees
          exact .refused diagnostic
      | ok argument =>
          cases agrees with
          | ok stands ended =>
              simp only [ok_bind, stands.behind, ended]
              exact .ok stands trivial

theorem statementAt_agrees (place : Place) (split : tokens.drop current = token :: rest) :
    Agrees tokens (fun _ _ => True) (statementAt tokens place current)
      (readStatement place token rest) := by
  have stands := stands_of_drop split
  rw [statementAt, readStatement]
  simp only [check_of_drop split, beq_iff_eq, getElem?_of_drop split]
  by_cases mutable : token.kind = .letWord
  · simpa only [mutable, if_true] using declaration_agrees stands .mutable
  rw [if_neg mutable]
  by_cases immutable : token.kind = .setWord
  · simpa only [immutable, if_true] using declaration_agrees stands .immutable
  rw [if_neg immutable]
  by_cases prints : token.kind = .printWord
  · simpa only [prints, if_true] using print_agrees stands
  rw [if_neg prints]
  split
  · contradiction
  · contradiction
  · contradiction
  · exact .refused _

/-! ## What every pass keeps -/

/-- What is read with the statements that were read before. -/
def outlook (tokens : List Token) (reader : Reader) : Except Halt Program :=
  ((Program.readFrom (nextPlace tokens reader) (tokens.drop reader.current)).mapError .refused).map
    (reader.statements ++ ·)

variable {reader : Reader}

theorem pass_of_semicolon (split : tokens.drop reader.current = token :: rest)
    (kind : token.kind = .semicolon) :
    pass tokens reader = .ok { reader with current := reader.current + 1 } := by
  rw [pass, check_of_drop split, kind]
  rfl

theorem pass_of_statement (split : tokens.drop reader.current = token :: rest)
    (kind : token.kind ≠ .semicolon) {next : Nat} {statement : Statement}
    (read : statementAt tokens (nextPlace tokens reader) reader.current = .ok (statement, next)) :
    pass tokens reader = .ok ⟨next, reader.statement + 1, reader.statements ++ [statement]⟩ := by
  rw [pass, check_of_drop split, if_neg (by simpa using kind), read]
  rfl

theorem pass_of_halt (split : tokens.drop reader.current = token :: rest)
    (kind : token.kind ≠ .semicolon) {halt : Halt}
    (halted : statementAt tokens (nextPlace tokens reader) reader.current = .error halt) :
    pass tokens reader = .error halt := by
  rw [pass, check_of_drop split, if_neg (by simpa using kind), halted]
  rfl

theorem outlook_of_semicolon (split : tokens.drop reader.current = token :: rest)
    (kind : token.kind = .semicolon) :
    outlook tokens { reader with current := reader.current + 1 } = outlook tokens reader := by
  simp only [outlook, split, drop_succ_of_drop split]
  rw [Program.readFrom, if_pos kind]
  rfl

theorem outlook_of_statement (split : tokens.drop reader.current = token :: rest)
    (kind : token.kind ≠ .semicolon) {next : Nat} {statement : Statement}
    (read : readStatement (nextPlace tokens reader) token rest =
      .ok (statement, tokens.drop next)) :
    outlook tokens ⟨next, reader.statement + 1, reader.statements ++ [statement]⟩ =
      outlook tokens reader := by
  have place : nextPlace tokens ⟨next, reader.statement + 1, reader.statements ++ [statement]⟩ =
      { nextPlace tokens reader with statement := (nextPlace tokens reader).statement + 1 } := rfl
  simp only [outlook, split, place]
  rw [Grammar.readFrom_of_readStatement kind read]
  cases Program.readFrom _ (tokens.drop next) with
  | ok program => simp [Except.map, Except.mapError]
  | error diagnostic => rfl

theorem outlook_of_refusal (split : tokens.drop reader.current = token :: rest)
    (kind : token.kind ≠ .semicolon) {diagnostic : Diagnostic}
    (refused : readStatement (nextPlace tokens reader) token rest = .error diagnostic) :
    outlook tokens reader = .error (.refused diagnostic) := by
  rw [outlook, split, Grammar.readFrom_of_readStatement_error kind refused]
  rfl

theorem lt_of_readStatement (split : tokens.drop current = token :: rest) {next : Nat}
    {statement : Statement} (stands : Stands tokens next last (tokens.drop next))
    (read : readStatement place token rest = .ok (statement, tokens.drop next)) :
    current < next := by
  have shorter := length_readStatement_le read
  have inside := le_length_of_stands stands
  have length := congrArg List.length split
  simp only [List.length_drop, List.length_cons] at shorter length
  omega

def Inside (tokens : List Token) (reader : Reader) : Prop := reader.current ≤ tokens.length

theorem loop_goes (before : reader.current < tokens.length) :
    (loop tokens).Goes
      (fun next => Inside tokens next ∧ next.outlook tokens = reader.outlook tokens)
      (fun halt => (∃ diagnostic, halt = .refused diagnostic) ∧ reader.outlook tokens = .error halt)
      reader := by
  have split := List.drop_eq_getElem_cons before
  generalize tokens[reader.current] = first at split
  generalize tokens.drop (reader.current + 1) = rest at split
  by_cases semicolon : first.kind = .semicolon
  · have inside : Inside tokens { reader with current := reader.current + 1 } := before
    exact .moves ⟨inside, outlook_of_semicolon split semicolon⟩ (Nat.lt_succ_self _)
      (pass_of_semicolon split semicolon)
  · have agrees := statementAt_agrees (nextPlace tokens reader) split
    generalize found : statementAt tokens _ reader.current = result at agrees
    generalize read : readStatement _ first rest = outcome at agrees
    cases agrees with
    | refused diagnostic =>
        exact .halts ⟨⟨diagnostic, rfl⟩, outlook_of_refusal split semicolon read⟩
          (pass_of_halt split semicolon found)
    | ok stands _ =>
        obtain rfl := stands.ahead
        exact .moves ⟨le_length_of_stands stands, outlook_of_statement split semicolon read⟩
          (lt_of_readStatement split stands read) (pass_of_statement split semicolon found)

end Tokens

/-! ## All tokens -/

theorem loop_safe (tokens : List Token) :
    (loop tokens).Safe (fun halt => ∃ diagnostic, halt = .refused diagnostic) start :=
  Loop.safe_of_kept (Nat.zero_le _) (fun _ inside => inside) fun _ _ before =>
    (loop_goes before).imp (fun _ kept => kept.1) fun _ halts => halts.1

theorem parse_eq (tokens : List Token) :
    parse tokens = (Program.ofTokens tokens).mapError .refused := by
  have goes : ∀ reader, Inside tokens reader → reader.current < tokens.length →
      (loop tokens).Goes
        (fun next => Inside tokens next ∧ next.outlook tokens = reader.outlook tokens)
        (fun halt => reader.outlook tokens = .error halt) reader :=
    fun _ _ before => (loop_goes before).imp (fun _ => id) fun _ halts => halts.2
  have ends : ∀ reader, Inside tokens reader → tokens.length ≤ reader.current →
      reader.outlook tokens = .ok reader.statements := by
    intro reader _ after
    rw [outlook, List.drop_eq_nil_of_le after, Program.readFrom]
    simp [Except.map, Except.mapError]
  have kept : Inside tokens start := Nat.zero_le _
  have run : ((loop tokens).run start).map (·.statements) = outlook tokens start :=
    Loop.map_run _ _ goes ends kept
  rw [parse, run, Program.ofTokens]
  change ((Program.readFrom ⟨1, Program.lineEnd tokens⟩ tokens).mapError Halt.refused).map
    ([] ++ ·) = _
  cases Program.readFrom _ tokens <;> rfl

end Reader

end LineScript.Cursor
