/-!
# Identifiers

A name begins with an ASCII letter, an underscore or a dollar sign and goes on
with those and ASCII digits.  No other letter belongs to a name.
-/

namespace LineScript

def beginsIdentifier (c : Char) : Bool := c.isAlpha || c == '_' || c == '$'

def continuesIdentifier (c : Char) : Bool := c.isAlphanum || c == '_' || c == '$'

def isIdentifier : List Char → Bool
  | [] => false
  | c :: rest => beginsIdentifier c && rest.all continuesIdentifier

end LineScript
