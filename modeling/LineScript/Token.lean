import LineScript.Numeral.Integer
import LineScript.Span
import LineScript.TypeName

/-!
# Tokens

A token is a piece of a line with a kind.  It keeps its spelling, its place in
the sequence of tokens, its span in the line and the type that its spelling
alone implies.
-/

namespace LineScript

inductive TokenKind where
  | letWord
  | setWord
  | printWord
  | ifWord
  | elseWord
  | whileWord
  | returnWord
  | functionWord
  | trueWord
  | falseWord
  | plus
  | minus
  | times
  | divide
  | modulo
  | assign
  | equal
  | strictEqual
  | notEqual
  | strictNotEqual
  | less
  | lessEqual
  | greater
  | greaterEqual
  | logicalAnd
  | logicalOr
  | logicalNot
  | leftParen
  | rightParen
  | leftBrace
  | rightBrace
  | leftBracket
  | rightBracket
  | comma
  | colon
  | dot
  | semicolon
  | number
  | float
  | string
  | identifier
  | reference
  | typeTag
  | unknown
  deriving DecidableEq, Repr, Inhabited

namespace TokenKind

/-- The name of a kind in token listings and messages. -/
def name : TokenKind → String
  | .letWord => "KEYWORD_LET"
  | .setWord => "KEYWORD_SET"
  | .printWord => "KEYWORD_PRINT"
  | .ifWord => "KEYWORD_IF"
  | .elseWord => "KEYWORD_ELSE"
  | .whileWord => "KEYWORD_WHILE"
  | .returnWord => "KEYWORD_RETURN"
  | .functionWord => "KEYWORD_FUNCTION"
  | .trueWord => "BOOLEAN_TRUE"
  | .falseWord => "BOOLEAN_FALSE"
  | .plus => "PLUS"
  | .minus => "MINUS"
  | .times => "MULTIPLY"
  | .divide => "DIVIDE"
  | .modulo => "MODULO"
  | .assign => "ASSIGN"
  | .equal => "EQUALS"
  | .strictEqual => "STRICT_EQUALS"
  | .notEqual => "NOT_EQUALS"
  | .strictNotEqual => "STRICT_NOT_EQUALS"
  | .less => "LESS_THAN"
  | .lessEqual => "LESS_THAN_EQUAL"
  | .greater => "GREATER_THAN"
  | .greaterEqual => "GREATER_THAN_EQUAL"
  | .logicalAnd => "LOGICAL_AND"
  | .logicalOr => "LOGICAL_OR"
  | .logicalNot => "LOGICAL_NOT"
  | .leftParen => "PAREN_LEFT"
  | .rightParen => "PAREN_RIGHT"
  | .leftBrace => "BRACE_LEFT"
  | .rightBrace => "BRACE_RIGHT"
  | .leftBracket => "BRACKET_LEFT"
  | .rightBracket => "BRACKET_RIGHT"
  | .comma => "COMMA"
  | .colon => "COLON"
  | .dot => "DOT"
  | .semicolon => "SEMICOLON"
  | .number => "NUMBER_LITERAL"
  | .float => "FLOAT_LITERAL"
  | .string => "STRING_LITERAL"
  | .identifier => "IDENTIFIER"
  | .reference => "VARIABLE_REFERENCE"
  | .typeTag => "TYPE_ANNOTATION"
  | .unknown => "UNKNOWN_TOKEN"

def all : List TokenKind :=
  [.letWord, .setWord, .printWord, .ifWord, .elseWord, .whileWord, .returnWord,
   .functionWord, .trueWord, .falseWord, .plus, .minus, .times, .divide, .modulo,
   .assign, .equal, .strictEqual, .notEqual, .strictNotEqual, .less, .lessEqual,
   .greater, .greaterEqual, .logicalAnd, .logicalOr, .logicalNot, .leftParen,
   .rightParen, .leftBrace, .rightBrace, .leftBracket, .rightBracket, .comma,
   .colon, .dot, .semicolon, .number, .float, .string, .identifier, .reference,
   .typeTag, .unknown]

def ofName? (name : String) : Option TokenKind :=
  all.find? fun kind => kind.name == name

theorem ofName?_name (kind : TokenKind) : ofName? kind.name = some kind := by
  cases kind <;> decide

/-- The kinds that stand for a value: numbers, quoted texts and the two truth
values. -/
def isLiteral : TokenKind → Bool
  | .number | .float | .string | .trueWord | .falseWord => true
  | _ => false

/-- The keywords set aside for control flow. -/
def isReserved : TokenKind → Bool
  | .ifWord | .elseWord | .whileWord | .returnWord | .functionWord => true
  | _ => false

end TokenKind

structure Token where
  kind : TokenKind
  lexeme : String
  position : Nat
  span : Span
  inferred : TypeName
  deriving DecidableEq, Repr, Inhabited

namespace Token

/-- A token as a row of a token listing. -/
def display (token : Token) : String :=
  Numeral.naturalText token.position ++ " " ++ token.kind.name ++ " '" ++ token.lexeme ++
    "' : " ++ token.inferred.name

end Token

end LineScript
