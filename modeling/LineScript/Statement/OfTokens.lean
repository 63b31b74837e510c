import LineScript.Binary64.Reading
import LineScript.Statement
import LineScript.Statement.Refusal

/-!
# Programs from tokens

Statements need no terminator between them, and semicolons may stand anywhere
before a statement.  A declaration takes a type tag and an initializer
whenever they follow its name.  Reading never looks behind the token at which
it refuses.
-/

namespace LineScript

open Refusal (Place)

/-! ## Literals -/

/-- A text without its first and its last character. -/
def stripMarks (lexeme : String) : String :=
  String.ofList lexeme.toList.tail.dropLast

/-- The value that a literal token denotes. -/
def Token.value (token : Token) : Except Refusal Value :=
  match token.kind with
  | .number =>
      match Numeral.int64? token.lexeme with
      | some n => .ok (.int n)
      | none => .error (.integerOutOfRange token.lexeme)
  | .float =>
      match Binary64.read? token.lexeme with
      | some x => .ok (.float x)
      | none => .error (.invalidFloat token.lexeme)
  | .string => .ok (.str (stripMarks token.lexeme))
  | .trueWord => .ok (.bool true)
  | .falseWord => .ok (.bool false)
  | _ => .error .unsupportedValue

def Literal.ofToken (place : Place) (token : Token) : Except Diagnostic Literal :=
  match token.value with
  | .ok value => .ok ⟨value, token.span⟩
  | .error refusal => .error (refusal.atToken place token)

/-! ## Parts of a declaration -/

/-- Take a type tag off the front, if there is one. -/
def splitTypeTag : List Token → Option Token × List Token
  | [] => (none, [])
  | token :: rest =>
      if token.kind = .typeTag then (some token, rest) else (none, token :: rest)

def readValue (place : Place) : List Token → Except Diagnostic (Literal × List Token)
  | [] => .error (Refusal.unsupportedValue.atEnd place)
  | token :: rest =>
      match Literal.ofToken place token with
      | .ok literal => .ok (literal, rest)
      | .error diagnostic => .error diagnostic

/-- Take an initializer off the front, if there is one. -/
def splitInitializer (place : Place) :
    List Token → Except Diagnostic (Option Literal × List Token)
  | [] => .ok (none, [])
  | token :: rest =>
      if token.kind = .assign then
        match readValue place rest with
        | .ok (literal, rest) => .ok (some literal, rest)
        | .error diagnostic => .error diagnostic
      else .ok (none, token :: rest)

/-- The end of the last token that a declaration takes. -/
def declarationEnd (name : Token) (tag : Option Token) (initializer : Option Literal) :
    Nat :=
  match initializer, tag with
  | some literal, _ => literal.span.stop
  | none, some token => token.span.stop
  | none, none => name.span.stop

/-! ## Statements -/

/-- Read a declaration behind its keyword. -/
def readDeclaration (place : Place) (mutability : Mutability) (keyword : Token) :
    List Token → Except Diagnostic (Statement × List Token)
  | [] => .error ((Refusal.nameExpected keyword.lexeme).atEnd place)
  | name :: rest =>
      if name.kind = .identifier then
        match splitTypeTag rest with
        | (tag, rest) =>
            match splitInitializer place rest with
            | .ok (initializer, rest) =>
                let stop := declarationEnd name tag initializer
                .ok (.declare ⟨mutability, name.lexeme, tag.map (·.inferred), initializer⟩
                  ⟨keyword.span.start, stop⟩, rest)
            | .error diagnostic => .error diagnostic
      else .error ((Refusal.nameExpected keyword.lexeme).atToken place name)

/-- Read what `print` is given, from the token behind it. -/
def Argument.ofToken (place : Place) (token : Token) : Except Diagnostic Argument :=
  if token.kind.isLiteral then (Literal.ofToken place token).map .literal
  else if token.kind = .identifier ∨ token.kind = .reference then
    .ok (.named token.lexeme token.span)
  else .error (Refusal.unsupportedArgument.atToken place token)

/-- Read a print statement behind its keyword. -/
def readPrint (place : Place) (keyword : Token) :
    List Token → Except Diagnostic (Statement × List Token)
  | [] => .error (Refusal.missingArgument.atEnd place)
  | token :: rest =>
      match Argument.ofToken place token with
      | .ok argument => .ok (.print argument ⟨keyword.span.start, token.span.stop⟩, rest)
      | .error diagnostic => .error diagnostic

/-- Read one statement from its first token and the tokens behind it. -/
def readStatement (place : Place) (first : Token) (rest : List Token) :
    Except Diagnostic (Statement × List Token) :=
  match first.kind with
  | .letWord => readDeclaration place .mutable first rest
  | .setWord => readDeclaration place .immutable first rest
  | .printWord => readPrint place first rest
  | kind => .error ((Refusal.badStart kind.isReserved).atToken place first)

/-! ## Every statement takes its tokens off the front -/

theorem length_splitTypeTag_le (tokens : List Token) :
    (splitTypeTag tokens).2.length ≤ tokens.length := by
  cases tokens with
  | nil => simp [splitTypeTag]
  | cons token rest =>
      rw [splitTypeTag]
      split <;> simp

theorem length_readValue_le {place : Place} {tokens rest : List Token} {literal : Literal}
    (read : readValue place tokens = .ok (literal, rest)) :
    rest.length ≤ tokens.length := by
  cases tokens with
  | nil => simp [readValue] at read
  | cons token more =>
      rw [readValue] at read
      split at read
      · cases read
        simp
      · contradiction

theorem length_splitInitializer_le {place : Place} {tokens rest : List Token}
    {initializer : Option Literal}
    (read : splitInitializer place tokens = .ok (initializer, rest)) :
    rest.length ≤ tokens.length := by
  cases tokens with
  | nil => simp_all [splitInitializer]
  | cons token more =>
      rw [splitInitializer] at read
      split at read
      · split at read
        next valued =>
          have shorter := length_readValue_le valued
          cases read
          simp
          omega
        · contradiction
      · cases read
        simp

theorem length_readDeclaration_le {place : Place} {mutability : Mutability} {keyword : Token}
    {tokens rest : List Token} {statement : Statement}
    (read : readDeclaration place mutability keyword tokens = .ok (statement, rest)) :
    rest.length ≤ tokens.length := by
  cases tokens with
  | nil => simp [readDeclaration] at read
  | cons name more =>
      rw [readDeclaration] at read
      split at read
      · split at read
        next tag behind split_eq =>
          have first := length_splitTypeTag_le more
          rw [split_eq] at first
          split at read
          next initialized =>
            have second := length_splitInitializer_le initialized
            cases read
            simp at first ⊢
            omega
          · contradiction
      · contradiction

theorem length_readPrint_le {place : Place} {keyword : Token} {tokens rest : List Token}
    {statement : Statement}
    (read : readPrint place keyword tokens = .ok (statement, rest)) :
    rest.length ≤ tokens.length := by
  cases tokens with
  | nil => simp [readPrint] at read
  | cons token more =>
      rw [readPrint] at read
      split at read
      · cases read
        simp
      · contradiction

theorem length_readStatement_le {place : Place} {first : Token} {tokens rest : List Token}
    {statement : Statement}
    (read : readStatement place first tokens = .ok (statement, rest)) :
    rest.length ≤ tokens.length := by
  unfold readStatement at read
  split at read
  · exact length_readDeclaration_le read
  · exact length_readDeclaration_le read
  · exact length_readPrint_le read
  · contradiction

/-! ## Programs -/

namespace Program

/-- Read the statements from some number on. -/
def readFrom (place : Place) : List Token → Except Diagnostic Program
  | [] => .ok []
  | first :: rest =>
      if first.kind = .semicolon then readFrom place rest
      else
        match _read : readStatement place first rest with
        | .error diagnostic => .error diagnostic
        | .ok (statement, rest) =>
            match readFrom { place with statement := place.statement + 1 } rest with
            | .error diagnostic => .error diagnostic
            | .ok program => .ok (statement :: program)
termination_by tokens => tokens.length
decreasing_by
  · simp
  · have := length_readStatement_le _read
    simp
    omega

/-- The position behind the last of some tokens. -/
def lineEnd (tokens : List Token) : Nat :=
  match tokens.getLast? with
  | some token => token.span.stop
  | none => 0

def ofTokens (tokens : List Token) : Except Diagnostic Program :=
  readFrom ⟨1, lineEnd tokens⟩ tokens

end Program

end LineScript
