/-!
# Type names

The names of the types of values.  Every one of them but `any` can be written
as a tag on a name; `any` is only inferred, for a reference whose variable is not
known until it is evaluated.
-/

namespace LineScript

inductive TypeName where
  | int
  | float
  | str
  | bool
  | void
  | any
  deriving DecidableEq, Repr, Inhabited

namespace TypeName

def name : TypeName → String
  | .int => "int"
  | .float => "float"
  | .str => "str"
  | .bool => "bool"
  | .void => "void"
  | .any => "any"

/-- The types that a tag can name. -/
def tags : List TypeName := [.int, .float, .str, .bool, .void]

/-- The type that a tag names. -/
def ofTag? (word : String) : Option TypeName :=
  tags.find? fun type => type.name == word

theorem ofTag?_eq_some_iff {word : String} {type : TypeName} :
    ofTag? word = some type ↔ type ≠ .any ∧ type.name = word := by
  constructor
  · intro found
    have named := List.find?_some found
    have member := List.mem_of_find?_eq_some found
    refine ⟨?_, by simpa using named⟩
    rintro rfl
    simp [tags] at member
  · rintro ⟨written, rfl⟩
    cases type with
    | any => exact absurd rfl written
    | _ => decide

end TypeName

end LineScript
