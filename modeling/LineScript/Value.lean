import LineScript.Binary64.Writing
import LineScript.TypeName

/-!
# Values

What a variable holds and `print` shows.  A declaration without an initializer
holds `void`.
-/

namespace LineScript

inductive Value where
  | int (n : Int64)
  | float (x : Binary64)
  | str (text : String)
  | bool (b : Bool)
  | void
  deriving DecidableEq, Repr, Inhabited

namespace Value

def type : Value → TypeName
  | .int _ => .int
  | .float _ => .float
  | .str _ => .str
  | .bool _ => .bool
  | .void => .void

/-- The text that `print` shows for a value. -/
def display : Value → String
  | .int n => Numeral.integerText n.toInt
  | .float x => x.text
  | .str text => text
  | .bool true => "true"
  | .bool false => "false"
  | .void => "undefined"

end Value

end LineScript
