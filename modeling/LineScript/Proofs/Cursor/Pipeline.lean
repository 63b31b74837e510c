import LineScript.Interpretation
import LineScript.Proofs.Cursor.Reader
import LineScript.Proofs.Cursor.Scanner

/-!
# Interpreting with cursors

A line is scanned and read with cursors, and evaluated.  No fault is ever met, whatever the
line and the tokens are, and the line is interpreted as without them.
-/

namespace LineScript.Cursor

def ofLine (mode : Mode) (line : String) : Except Fault (List Token) :=
  (Scanner.scan mode line).map (·.mapIdx Token.classify)

def interpretLine (mode : Mode) (line : String) (scope : Scope) : Except Fault Interpretation := do
  let tokens ← ofLine mode line
  match Reader.parse tokens with
  | .ok program =>
      let evaluation := program.evaluate scope
      return ⟨tokens, .ofEvaluation evaluation, evaluation.scope⟩
  | .error (.refused diagnostic) => return ⟨tokens, .rejected diagnostic, scope⟩
  | .error (.faulted fault) => .error fault

theorem ofLine_eq (mode : Mode) (line : String) :
    ofLine mode line = .ok (Token.ofLine mode line) := by
  rw [ofLine, Scanner.scan_eq]
  rfl

theorem interpretLine_eq (mode : Mode) (line : String) (scope : Scope) :
    interpretLine mode line scope = .ok (interpret mode line scope) := by
  rw [interpretLine, ofLine_eq, ok_bind, Reader.parse_eq, interpret]
  cases Program.ofTokens (Token.ofLine mode line) <;> rfl

/-- Cursors never go wrong.  The scanner finds the pieces and the tokens of every line, the
reader reads or refuses every list of tokens, and a line is interpreted.  On the way both
cursors stay inside what they go over, and every pass moves them forward or, with the
reader, refuses the tokens. -/
theorem cursors_never_fault :
    (∀ mode line,
      Scanner.scan mode line = .ok (Piece.scan mode line) ∧
      ofLine mode line = .ok (Token.ofLine mode line) ∧
      (Scanner.loop line.toList mode).Safe (fun _ => False) Scanner.start) ∧
    (∀ tokens,
      Reader.parse tokens = (Program.ofTokens tokens).mapError .refused ∧
      (Reader.loop tokens).Safe (fun halt => ∃ diagnostic, halt = .refused diagnostic)
        Reader.start) ∧
    ∀ mode line scope, interpretLine mode line scope = .ok (interpret mode line scope) :=
  ⟨fun mode line =>
    ⟨Scanner.scan_eq mode line, ofLine_eq mode line, Scanner.loop_safe line.toList mode⟩,
    fun tokens => ⟨Reader.parse_eq tokens, Reader.loop_safe tokens⟩, interpretLine_eq⟩

end LineScript.Cursor
