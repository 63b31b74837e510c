/-!
# Spans

A span is a range of characters within one line, counted from zero, with its
first position and the position just behind its last.
-/

namespace LineScript

structure Span where
  start : Nat
  stop : Nat
  deriving DecidableEq, Repr, Inhabited

namespace Span

/-- The span of the one character at a position. -/
def single (position : Nat) : Span := ⟨position, position + 1⟩

def contains (span : Span) (position : Nat) : Bool :=
  span.start ≤ position && position < span.stop

def middle (span : Span) : Nat := (span.start + span.stop) / 2

def shift (distance : Nat) (span : Span) : Span :=
  ⟨span.start + distance, span.stop + distance⟩

end Span

end LineScript
