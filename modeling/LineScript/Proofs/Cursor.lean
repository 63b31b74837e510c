import Mathlib.Logic.Relation

/-!
# Cursors that can go wrong

A loop walks over a list with a cursor and does some steps that have no result everywhere:
it goes back from a position, takes a part of the list by its ends, or comes to a case that
should not arise.  Every such step gives a fault where it has no result, and so does a pass
that does not move the cursor forward.  Where no reachable state gives a fault, the loop
ends, with the result that its steps keep in view.
-/

namespace LineScript

/-- What a step of a cursor can go wrong with. -/
inductive Fault where
  /-- The position before the first. -/
  | beforeStart
  /-- A position that is not in the list, or a part with such an end. -/
  | outOfRange
  /-- A case that should not arise. -/
  | unreachable
  /-- A pass that does not move the cursor forward. -/
  | stalled
  deriving DecidableEq, Repr

namespace Cursor

/-! ## Steps that have no result everywhere -/

def previous : Nat → Except Fault Nat
  | 0 => .error .beforeStart
  | position + 1 => .ok position

def item {α : Type} (items : List α) (position : Nat) : Except Fault α :=
  match items[position]? with
  | some item => .ok item
  | none => .error .outOfRange

def part {α : Type} (items : List α) (start stop : Nat) : Except Fault (List α) :=
  if start ≤ stop ∧ stop ≤ items.length then .ok ((items.drop start).take (stop - start))
  else .error .outOfRange

@[simp] theorem ok_bind {ε α β : Type} (value : α) (next : α → Except ε β) :
    (Except.ok value >>= next) = next value := rfl

@[simp] theorem previous_succ (position : Nat) : previous (position + 1) = .ok position := rfl

theorem getElem?_of_drop {α : Type} {items rest : List α} {position : Nat} {first : α}
    (split : items.drop position = first :: rest) : items[position]? = some first := by
  rw [← List.head?_drop, split, List.head?_cons]

theorem item_of_drop {α : Type} {items rest : List α} {position : Nat} {first : α}
    (split : items.drop position = first :: rest) : item items position = .ok first := by
  rw [item, getElem?_of_drop split]

theorem part_of_le {α : Type} {items : List α} {start stop : Nat} (ordered : start ≤ stop)
    (inside : stop ≤ items.length) :
    part items start stop = .ok ((items.drop start).take (stop - start)) :=
  if_pos ⟨ordered, inside⟩

theorem drop_succ_of_drop {α : Type} {items rest : List α} {position : Nat} {first : α}
    (split : items.drop position = first :: rest) : items.drop (position + 1) = rest := by
  rw [← List.drop_drop, split, List.drop_one, List.tail_cons]

theorem lt_length_of_drop {α : Type} {items rest : List α} {position : Nat} {first : α}
    (split : items.drop position = first :: rest) : position < items.length := by
  have length := congrArg List.length split
  rw [List.length_drop, List.length_cons] at length
  omega

/-! ## Loops -/

/-- A loop that makes passes as long as its cursor is before the limit. -/
structure Loop (ε σ : Type) where
  limit : Nat
  cursor : σ → Nat
  pass : σ → Except ε σ
  stalled : ε

namespace Loop

variable {ε σ : Type} (loop : Loop ε σ)

def run (state : σ) : Except ε σ :=
  if loop.cursor state < loop.limit then
    match loop.pass state with
    | .error halt => .error halt
    | .ok next => if loop.cursor state < loop.cursor next then run next else .error loop.stalled
  else .ok state
termination_by loop.limit - loop.cursor state
decreasing_by omega

/-- One state leads to another by passes of the loop. -/
def Reaches : σ → σ → Prop :=
  Relation.ReflTransGen fun state next =>
    loop.cursor state < loop.limit ∧ loop.pass state = .ok next

/-- What a pass does with a state that is kept: it halts in one of the ways that are
allowed, or it leads to a state that is kept and moves the cursor forward. -/
inductive Goes (keeps : σ → Prop) (halts : ε → Prop) (state : σ) : Prop
  | halts {halt : ε} (allowed : halts halt) (passed : loop.pass state = .error halt)
  | moves {next : σ} (kept : keeps next) (forward : loop.cursor state < loop.cursor next)
      (passed : loop.pass state = .ok next)

/-- Every state that the loop comes to has its cursor inside the limit.  A pass from it
moves the cursor forward, still inside, or halts in one of the ways that are allowed. -/
def Safe (halts : ε → Prop) (start : σ) : Prop :=
  ∀ state, loop.Reaches start state → loop.cursor state ≤ loop.limit ∧
    (loop.cursor state < loop.limit →
      loop.Goes (fun next => loop.cursor next ≤ loop.limit) halts state)

variable {loop} {keeps : σ → Prop} {halts : ε → Prop}

theorem Goes.imp {keeps' : σ → Prop} {halts' : ε → Prop} {state : σ}
    (goes : loop.Goes keeps halts state) (kept : ∀ next, keeps next → keeps' next)
    (allowed : ∀ halt, halts halt → halts' halt) : loop.Goes keeps' halts' state := by
  cases goes with
  | halts halts passed => exact .halts (allowed _ halts) passed
  | moves keeps forward passed => exact .moves (kept _ keeps) forward passed

theorem Goes.of_ok {state next : σ} (goes : loop.Goes keeps halts state)
    (passed : loop.pass state = .ok next) :
    keeps next ∧ loop.cursor state < loop.cursor next := by
  cases goes with
  | halts _ halted => simp [halted] at passed
  | moves kept forward moved =>
      rw [moved] at passed
      cases passed
      exact ⟨kept, forward⟩

theorem Goes.of_error {state : σ} {halt : ε} (goes : loop.Goes keeps halts state)
    (halted : loop.pass state = .error halt) : halts halt := by
  cases goes with
  | halts allowed passed =>
      rw [passed] at halted
      cases halted
      exact allowed
  | moves _ _ moved => simp [moved] at halted

theorem Reaches.kept {start state : σ} (reaches : loop.Reaches start state) (kept : keeps start)
    (goes : ∀ state, keeps state → loop.cursor state < loop.limit →
      loop.Goes keeps halts state) : keeps state := by
  induction reaches with
  | refl => exact kept
  | tail _ pass ih => exact ((goes _ ih pass.1).of_ok pass.2).1

theorem safe_of_kept {start : σ} (kept : keeps start)
    (inside : ∀ state, keeps state → loop.cursor state ≤ loop.limit)
    (goes : ∀ state, keeps state → loop.cursor state < loop.limit →
      loop.Goes keeps halts state) : loop.Safe halts start := by
  intro state reaches
  have kept := reaches.kept kept goes
  exact ⟨inside state kept, fun before => (goes state kept before).imp inside fun _ => id⟩

/-- Where every pass keeps what is in view, the loop ends with what was in view at first. -/
theorem map_run {β : Type} (view : σ → Except ε β) (finish : σ → β)
    (goes : ∀ state, keeps state → loop.cursor state < loop.limit →
      loop.Goes (fun next => keeps next ∧ view next = view state)
        (fun halt => view state = .error halt) state)
    (ends : ∀ state, keeps state → loop.limit ≤ loop.cursor state →
      view state = .ok (finish state))
    {state : σ} (kept : keeps state) : (loop.run state).map finish = view state := by
  fun_induction loop.run state with
  | case1 state before halt halted => exact ((goes state kept before).of_error halted).symm
  | case2 state before next moved forward ih =>
      obtain ⟨⟨kept, same⟩, -⟩ := (goes state kept before).of_ok moved
      rw [ih kept, same]
  | case3 state before next moved still =>
      exact absurd ((goes state kept before).of_ok moved).2 still
  | case4 state after => exact (ends state kept (by omega)).symm

end Loop

end Cursor

end LineScript
