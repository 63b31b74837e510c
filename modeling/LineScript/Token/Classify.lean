import LineScript.Piece.Scan
import LineScript.Token

/-!
# Kinds of pieces

Every piece has a kind.  The classes of texts overlap only where a keyword is
also a name, and there the keyword wins; a text in no class is of unknown kind.
-/

namespace LineScript.Token

open LineScript.Piece

/-! ## Tables -/

def keywords : List (String × TokenKind) :=
  [("let", .letWord), ("set", .setWord), ("if", .ifWord), ("else", .elseWord),
   ("while", .whileWord), ("return", .returnWord), ("function", .functionWord),
   ("true", .trueWord), ("false", .falseWord), ("print", .printWord),
   ("stdout", .printWord)]

def operatorKinds : List (String × TokenKind) :=
  [("+", .plus), ("-", .minus), ("*", .times), ("/", .divide), ("%", .modulo),
   ("=", .assign), ("==", .equal), ("===", .strictEqual), ("!=", .notEqual),
   ("!==", .strictNotEqual), ("<", .less), ("<=", .lessEqual), (">", .greater),
   (">=", .greaterEqual), ("&&", .logicalAnd), ("||", .logicalOr), ("!", .logicalNot)]

def symbolKinds : List (String × TokenKind) :=
  [("(", .leftParen), (")", .rightParen), ("\x7b", .leftBrace), ("\x7d", .rightBrace),
   ("[", .leftBracket), ("]", .rightBracket), (",", .comma), (":", .colon),
   (".", .dot), (";", .semicolon)]

/-! ## Classes of texts -/

/-- The name behind the question mark of a reference. -/
def referenceName? : List Char → Option (List Char)
  | [] => none
  | c :: name => if c = '?' && isIdentifier name then some name else none

/-- The kind of a numeral.  It has an optional minus sign, then a digit, then
digits with at most one point among them; a point makes it a fraction. -/
def numeralKind? (chars : List Char) : Option TokenKind :=
  let unsigned := if chars.head? = some '-' then chars.tail else chars
  if beginsWithDigit unsigned && unsigned.all (fun c => c.isDigit || c == '.') then
    match unsigned.count '.' with
    | 0 => some .number
    | 1 => some .float
    | _ => none
  else none

/-- Whether a text begins with a quote mark and ends with another of the same. -/
def isQuoted : List Char → Bool
  | [] => false
  | mark :: rest => isQuote mark && rest.getLast? == some mark

/-- The kind of a text and the type it implies. -/
def kindOfText (text : String) : TokenKind × TypeName :=
  match keywords.lookup text with
  | some kind =>
      (kind, if kind = .trueWord ∨ kind = .falseWord then .bool else .void)
  | none =>
      match (operatorKinds ++ symbolKinds).lookup text with
      | some kind => (kind, .void)
      | none =>
          match numeralKind? text.toList with
          | some kind => (kind, if kind = .float then .float else .int)
          | none =>
              if isQuoted text.toList then (.string, .str)
              else if isIdentifier text.toList then (.identifier, .void)
              else (.unknown, .void)

/-! ## Tokens of a line -/

/-- The token of a piece at a position in the sequence of pieces. -/
def classify (position : Nat) (piece : Piece) : Token :=
  match piece.content with
  | .typeTag type => ⟨.typeTag, type.name, position, piece.span, type⟩
  | .text text =>
      match referenceName? text.toList with
      | some name => ⟨.reference, String.ofList name, position, piece.span, .any⟩
      | none =>
          match kindOfText text with
          | (kind, type) => ⟨kind, text, position, piece.span, type⟩

def ofLine (mode : Mode) (line : String) : List Token :=
  (scan mode line).mapIdx classify

end LineScript.Token
