import LineScript.Session.Turn

/-!
# Sessions

A session takes one turn for every read until one of them ends it.  The turns
do not depend on what becomes of the writes; a console that fails only cuts
them short.
-/

namespace LineScript.Session

/-- The turns of a session, one for every read it makes, and how it ended. -/
structure Conversation where
  turns : List Turn
  result : Except String Ending

/-- Take turns until the session ends.  The end of the list of reads is the end
of the input. -/
def converse (config : Config) (state : State) : List Read → Conversation
  | [] => ⟨[⟨state, farewell config⟩], .ok .endOfInput⟩
  | read :: rest =>
      match step config state read with
      | .last turn result => ⟨[turn], result⟩
      | .more turn =>
          let later := converse config turn.state rest
          { later with turns := turn :: later.turns }

namespace Conversation

def writes (conversation : Conversation) : List Write :=
  conversation.turns.flatMap (·.writes)

def finalState (conversation : Conversation) (start : State) : State :=
  match conversation.turns.getLast? with
  | some turn => turn.state
  | none => start

end Conversation

/-! ## On a console -/

inductive Failure where
  /-- The first read failed. -/
  | unreadable (reason : String)
  /-- A write did not fit. -/
  | sinkFull
  deriving DecidableEq, Repr

def Failure.message : Failure → String
  | .unreadable reason => reason
  | .sinkFull => "sink full"

structure Run where
  result : Except Failure Ending
  state : State
  console : Console
  reads : Nat

/-- Write the turns on a console.  A turn whose writes fail is the last, and the
state it led to is kept. -/
def play (result : Except Failure Ending) (state : State) (console : Console) (reads : Nat) :
    List Turn → Run
  | [] => ⟨result, state, console, reads⟩
  | turn :: rest =>
      match console.writeAll turn.writes with
      | (console, true) => play result turn.state console (reads + 1) rest
      | (console, false) => ⟨.error .sinkFull, turn.state, console, reads + 1⟩

def run (config : Config) (state : State) (console : Console) (reads : List Read) : Run :=
  match console.writeAll (banner config) with
  | (console, false) => ⟨.error .sinkFull, state, console, 0⟩
  | (console, true) =>
      let conversation := converse config state reads
      play (conversation.result.mapError .unreadable) state console 0 conversation.turns

/-- What became of one line on a console. -/
structure LineRun where
  failure : Option Failure
  state : State
  console : Console

/-- Process one line apart from any read. -/
def runLine (config : Config) (state : State) (console : Console) (line : String) : LineRun :=
  let turn := processLine config state line
  match console.writeAll turn.writes with
  | (console, true) => ⟨none, turn.state, console⟩
  | (console, false) => ⟨some .sinkFull, turn.state, console⟩

/-- Run the lines of a script, without announcements. -/
def runScript (config : Config) (scope : Scope) (console : Console) (script : String) : Run :=
  run { config with announce := false } ⟨scope, 0⟩ console (Read.ofText script)

end LineScript.Session
