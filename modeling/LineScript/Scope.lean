import LineScript.Diagnostic
import LineScript.Statement
import Std.Data.ExtTreeMap

/-!
# Scopes

A scope binds names to entries.  A locked name keeps its entry for good; any
other name can be bound again.  Two scopes are equal when they bind the same
names to the same entries.
-/

namespace LineScript

structure Entry where
  mutability : Mutability
  type : TypeName
  value : Value
  deriving DecidableEq, Repr

/-- An entry as shown after its declaration. -/
def Entry.display (entry : Entry) : String :=
  "\x7b mutability: " ++ entry.mutability.name ++ ", type: " ++ entry.type.name ++
    ", value: " ++ entry.value.display ++ " \x7d"

structure Scope where
  entries : Std.ExtTreeMap String Entry compare

namespace Scope

def empty : Scope := ⟨∅⟩

def get? (scope : Scope) (name : String) : Option Entry := scope.entries[name]?

/-- Bind a name, whatever it is bound to. -/
def bind (scope : Scope) (name : String) (entry : Entry) : Scope :=
  ⟨scope.entries.insert name entry⟩

def size (scope : Scope) : Nat := scope.entries.size

/-- The bindings, in the order of their names. -/
def toList (scope : Scope) : List (String × Entry) := scope.entries.toList

def isLocked (scope : Scope) (name : String) : Bool :=
  match scope.get? name with
  | some entry => entry.mutability == .immutable
  | none => false

/-- Bind a name that is not locked. -/
def declare (scope : Scope) (name : String) (entry : Entry) (span : Span) :
    Except Diagnostic Scope :=
  if scope.isLocked name then .error (.locked name span) else .ok (scope.bind name entry)

@[ext] theorem ext {left right : Scope} (h : ∀ name, left.get? name = right.get? name) :
    left = right := by
  cases left
  cases right
  exact congrArg Scope.mk (Std.ExtTreeMap.ext_getElem? h)

@[simp] theorem get?_empty (name : String) : empty.get? name = none := by
  simp [empty, get?]

theorem get?_bind (scope : Scope) (name : String) (entry : Entry) (other : String) :
    (scope.bind name entry).get? other =
      if name = other then some entry else scope.get? other := by
  simp [bind, get?, Std.ExtTreeMap.getElem?_insert]

end Scope

end LineScript
