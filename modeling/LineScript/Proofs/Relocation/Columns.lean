import LineScript.Proofs.Grammar.Viability
import LineScript.Proofs.Joining

/-!
# Columns decide nothing but columns

Two lists of tokens that differ only in their spans are read as programs that differ only in
theirs, or refused with diagnostics that differ only in where they point.  So two lines with
such tokens do the same.
-/

namespace LineScript

open LineScript.Refusal (Place)

/-- Tokens keep their places, and all columns are forgotten. -/
def Relocation.columnless : Relocation := ⟨id, fun _ => 0⟩

def Token.columnless (token : Token) : Token := token.relocate .columnless

def Outcome.relocate (relocation : Relocation) (outcome : Outcome) : Outcome :=
  outcome.following relocation []

/-- Two results of reading, the second of tokens without columns. -/
inductive SameButColumns {α : Type} (move : α → α) :
    Except Diagnostic α → Except Diagnostic α → Prop
  | ok (found : α) : SameButColumns move (.ok found) (.ok (move found))
  | error {diagnostic other : Diagnostic}
      (same : other.relocate .columnless = diagnostic.relocate .columnless) :
      SameButColumns move (.error diagnostic) (.error other)

/-- What was read and the tokens left, without columns. -/
def withRest {α : Type} (move : α → α) : α × List Token → α × List Token :=
  Prod.map move (List.map Token.columnless)

theorem splitTypeTag_columnless (tokens : List Token) :
    splitTypeTag (tokens.map Token.columnless) =
      withRest (Option.map Token.columnless) (splitTypeTag tokens) := by
  cases tokens with
  | nil => rfl
  | cons token rest =>
      have kind : token.columnless.kind = token.kind := rfl
      rw [List.map_cons, splitTypeTag, splitTypeTag, kind]
      split <;> rfl

theorem declarationEnd_columnless (name : Token) (tag : Option Token)
    (initializer : Option Literal) :
    declarationEnd name.columnless (tag.map Token.columnless)
        (initializer.map (·.relocate .columnless)) = 0 := by
  cases initializer <;> cases tag <;> rfl

section Readers

variable {place other : Place} (same : other.statement = place.statement)

include same

theorem Refusal.atToken_columnless (refusal : Refusal) (token : Token) :
    (refusal.atToken other token.columnless).relocate .columnless =
      (refusal.atToken place token).relocate .columnless := by
  simp only [atToken, same]
  rfl

theorem Refusal.atEnd_columnless (refusal : Refusal) :
    (refusal.atEnd other).relocate .columnless = (refusal.atEnd place).relocate .columnless := by
  simp only [atEnd, same]
  rfl

theorem literal_columnless (token : Token) :
    SameButColumns (·.relocate .columnless) (Literal.ofToken place token)
      (Literal.ofToken other token.columnless) := by
  have value : token.columnless.value = token.value := rfl
  rw [Literal.ofToken, Literal.ofToken, value]
  cases token.value with
  | ok value => exact .ok _
  | error refusal => exact .error (refusal.atToken_columnless same token)

theorem readValue_columnless (tokens : List Token) :
    SameButColumns (withRest (·.relocate .columnless)) (readValue place tokens)
      (readValue other (tokens.map Token.columnless)) := by
  cases tokens with
  | nil => exact .error (Refusal.atEnd_columnless same _)
  | cons token rest =>
      have literal := literal_columnless same token
      rw [List.map_cons, readValue, readValue]
      generalize Literal.ofToken place token = found at literal ⊢
      generalize Literal.ofToken other token.columnless = moved at literal ⊢
      cases literal with
      | ok literal => exact .ok (literal, rest)
      | error alike => exact .error alike

theorem splitInitializer_columnless (tokens : List Token) :
    SameButColumns (withRest (Option.map (·.relocate .columnless)))
      (splitInitializer place tokens)
      (splitInitializer other (tokens.map Token.columnless)) := by
  cases tokens with
  | nil => exact .ok (none, [])
  | cons token rest =>
      have kind : token.columnless.kind = token.kind := rfl
      have value := readValue_columnless same rest
      rw [List.map_cons, splitInitializer, splitInitializer, kind]
      generalize readValue place rest = found at value ⊢
      generalize readValue other (rest.map Token.columnless) = moved at value ⊢
      split
      · cases value with
        | ok found => exact .ok (some found.1, found.2)
        | error alike => exact .error alike
      · exact .ok (none, token :: rest)

theorem readDeclaration_columnless (mutability : Mutability) (keyword : Token)
    (tokens : List Token) :
    SameButColumns (withRest (·.relocate .columnless))
      (readDeclaration place mutability keyword tokens)
      (readDeclaration other mutability keyword.columnless (tokens.map Token.columnless)) := by
  cases tokens with
  | nil => exact .error (Refusal.atEnd_columnless same _)
  | cons name rest =>
      have kind : name.columnless.kind = name.kind := rfl
      rw [List.map_cons, readDeclaration, readDeclaration, kind, splitTypeTag_columnless]
      split
      · obtain ⟨tag, behind⟩ := splitTypeTag rest
        have initializer := splitInitializer_columnless same behind
        simp only [withRest, Prod.map]
        generalize splitInitializer place behind = found at initializer ⊢
        generalize splitInitializer other (behind.map Token.columnless) = moved at initializer ⊢
        cases initializer with
        | ok found =>
            obtain ⟨initializer, rest⟩ := found
            have inferred : (tag.map Token.columnless).map (·.inferred) =
                tag.map (·.inferred) := by
              cases tag <;> rfl
            simp only [withRest, Prod.map, declarationEnd_columnless, inferred]
            exact .ok (Statement.declare
              ⟨mutability, name.lexeme, tag.map (·.inferred), initializer⟩
              ⟨keyword.span.start, declarationEnd name tag initializer⟩, rest)
        | error alike => exact .error alike
      · exact .error (Refusal.atToken_columnless same _ name)

theorem argument_columnless (token : Token) :
    SameButColumns (·.relocate .columnless) (Argument.ofToken place token)
      (Argument.ofToken other token.columnless) := by
  have kind : token.columnless.kind = token.kind := rfl
  have literal := literal_columnless same token
  rw [Argument.ofToken, Argument.ofToken, kind]
  generalize Literal.ofToken place token = found at literal ⊢
  generalize Literal.ofToken other token.columnless = moved at literal ⊢
  split
  · cases literal with
    | ok literal => exact .ok (Argument.literal literal)
    | error alike => exact .error alike
  split
  · exact .ok (Argument.named token.lexeme token.span)
  · exact .error (Refusal.atToken_columnless same _ token)

theorem readPrint_columnless (keyword : Token) (tokens : List Token) :
    SameButColumns (withRest (·.relocate .columnless)) (readPrint place keyword tokens)
      (readPrint other keyword.columnless (tokens.map Token.columnless)) := by
  cases tokens with
  | nil => exact .error (Refusal.atEnd_columnless same _)
  | cons token rest =>
      have argument := argument_columnless same token
      rw [List.map_cons, readPrint, readPrint]
      generalize Argument.ofToken place token = found at argument ⊢
      generalize Argument.ofToken other token.columnless = moved at argument ⊢
      cases argument with
      | ok argument =>
          exact .ok (Statement.print argument ⟨keyword.span.start, token.span.stop⟩, rest)
      | error alike => exact .error alike

theorem readStatement_columnless (first : Token) (tokens : List Token) :
    SameButColumns (withRest (·.relocate .columnless)) (readStatement place first tokens)
      (readStatement other first.columnless (tokens.map Token.columnless)) := by
  have kind : first.columnless.kind = first.kind := rfl
  rw [readStatement, readStatement, kind]
  split
  · exact readDeclaration_columnless same .mutable first tokens
  · exact readDeclaration_columnless same .immutable first tokens
  · exact readPrint_columnless same first tokens
  · exact .error (Refusal.atToken_columnless same _ first)

end Readers

theorem Program.readFrom_cons_columnless {place other : Place}
    (same : other.statement = place.statement) {first : Token} {rest behind : List Token}
    {statement : Statement} (begun : first.kind ≠ .semicolon)
    (read : readStatement place first rest = .ok (statement, behind)) :
    readFrom other ((first :: rest).map Token.columnless) =
      (readFrom { other with statement := other.statement + 1 }
        (behind.map Token.columnless)).map (statement.relocate .columnless :: ·) := by
  have moved := readStatement_columnless same first rest
  rw [read] at moved
  generalize moved_eq : readStatement other first.columnless _ = result at moved
  cases moved
  exact Grammar.readFrom_of_readStatement (show first.columnless.kind ≠ .semicolon from begun)
    moved_eq

theorem Program.readFrom_columnless (place other : Place)
    (same : other.statement = place.statement) (tokens : List Token) :
    SameButColumns (·.relocate .columnless) (readFrom place tokens)
      (readFrom other (tokens.map Token.columnless)) := by
  fun_induction readFrom place tokens generalizing other with
  | case1 =>
      rw [List.map_nil, readFrom]
      exact .ok []
  | case2 place first rest kind ih =>
      rw [List.map_cons, readFrom, if_pos (show first.columnless.kind = .semicolon from kind)]
      exact ih other same
  | case3 place first rest kind diagnostic refused =>
      have begun : first.columnless.kind ≠ .semicolon := kind
      have statement := readStatement_columnless same first rest
      rw [refused] at statement
      generalize moved_eq : readStatement other first.columnless _ = moved at statement
      cases statement with
      | error alike =>
          rw [List.map_cons, Grammar.readFrom_of_readStatement_error begun moved_eq]
          exact .error alike
  | case4 place first rest kind statement behind read diagnostic refused ih =>
      have later := ih { other with statement := other.statement + 1 }
        (congrArg Nat.succ same)
      rw [refused] at later
      rw [readFrom_cons_columnless same kind read]
      generalize readFrom _ (behind.map Token.columnless) = tail at later ⊢
      cases later with
      | error alike => exact .error alike
  | case5 place first rest kind statement behind read program laterRead ih =>
      have later := ih { other with statement := other.statement + 1 }
        (congrArg Nat.succ same)
      rw [laterRead] at later
      rw [readFrom_cons_columnless same kind read]
      generalize readFrom _ (behind.map Token.columnless) = tail at later ⊢
      cases later with
      | ok => exact .ok (statement :: program)

theorem Program.ofTokens_columnless (tokens : List Token) :
    SameButColumns (·.relocate .columnless) (ofTokens tokens)
      (ofTokens (tokens.map Token.columnless)) := by
  apply readFrom_columnless
  rfl

/-! ## Interpreting without columns -/

namespace Interpretation

def columnless (interpretation : Interpretation) : Interpretation where
  tokens := interpretation.tokens.map Token.columnless
  outcome := interpretation.outcome.relocate .columnless
  scope := interpretation.scope

/-- What tokens without columns say about the lines that have them. -/
def ofColumnless (tokens : List Token) (scope : Scope) : Interpretation :=
  match Program.ofTokens tokens with
  | .error diagnostic => ⟨tokens, .rejected (diagnostic.relocate .columnless), scope⟩
  | .ok program =>
      ⟨tokens, .ofEvaluation (program.evaluate scope), (program.evaluate scope).scope⟩

end Interpretation

theorem interpret_columnless (mode : Mode) (line : String) (scope : Scope) :
    (interpret mode line scope).columnless =
      .ofColumnless ((Token.ofLine mode line).map Token.columnless) scope := by
  have reading := Program.ofTokens_columnless (Token.ofLine mode line)
  rw [Interpretation.ofColumnless]
  generalize read : Program.ofTokens (Token.ofLine mode line) = found at reading
  generalize Program.ofTokens ((Token.ofLine mode line).map Token.columnless) = moved at reading ⊢
  cases reading with
  | ok program =>
      simp only [interpret_of_ok read, Interpretation.columnless, Program.evaluate_relocate,
        Outcome.relocate, Outcome.following_ofEvaluation, List.nil_append]
      rfl
  | error alike =>
      simp only [interpret_of_error read, Interpretation.columnless, Outcome.relocate,
        Outcome.following, alike]

end LineScript
