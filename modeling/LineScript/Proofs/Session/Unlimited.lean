import LineScript.Session

/-!
# Sessions on consoles without a limit

A console that takes every write only collects texts, one for each channel.  A session
held on it plays all its turns, so that everything about it can be read off its
conversation.
-/

namespace LineScript

/-! ## Texts on a channel -/

namespace Channel

@[simp] theorem text_nil (channel : Channel) : channel.text [] = "" := by
  simp [text]

@[simp] theorem text_append (channel : Channel) (first second : List Write) :
    channel.text (first ++ second) = channel.text first ++ channel.text second := by
  simp [text]

theorem text_cons (channel : Channel) (write : Write) (rest : List Write) :
    channel.text (write :: rest) =
      (if write.channel = channel then write.text else "") ++ channel.text rest := by
  by_cases same : write.channel = channel <;> simp [text, same]

end Channel

/-! ## Consoles that take every write -/

namespace Console

/-- A console with more text on both of its channels. -/
def extend (console : Console) (out err : String) : Console :=
  ⟨{ console.out with written := console.out.written ++ Text.encode out },
    { console.err with written := console.err.written ++ Text.encode err }⟩

@[simp] theorem extend_empty (console : Console) : console.extend "" "" = console := by
  have nothing : Text.encode "" = [] := by decide
  simp [extend, nothing]

@[simp] theorem extend_extend (console : Console) (out err moreOut moreErr : String) :
    (console.extend out err).extend moreOut moreErr =
      console.extend (out ++ moreOut) (err ++ moreErr) := by
  simp [extend]

structure Unlimited (console : Console) : Prop where
  out : console.out.capacity = none
  err : console.err.capacity = none

theorem unlimited_new : (Console.new none none).Unlimited := ⟨rfl, rfl⟩

theorem Unlimited.extend {console : Console} (unlimited : console.Unlimited) (out err : String) :
    (console.extend out err).Unlimited :=
  ⟨unlimited.out, unlimited.err⟩

theorem Unlimited.write {console : Console} (unlimited : console.Unlimited) (write : Write) :
    console.write write =
      (console.extend (Channel.out.text [write]) (Channel.err.text [write]), true) := by
  have nothing : Text.encode "" = [] := by decide
  obtain ⟨channel, text⟩ := write
  cases channel with
  | out => simp [Console.write, Sink.write, unlimited.out, Console.extend, Channel.text_cons, nothing]
  | err => simp [Console.write, Sink.write, unlimited.err, Console.extend, Channel.text_cons, nothing]

theorem Unlimited.writeAll {console : Console} (unlimited : console.Unlimited)
    (writes : List Write) :
    console.writeAll writes =
      (console.extend (Channel.out.text writes) (Channel.err.text writes), true) := by
  induction writes generalizing console with
  | nil => simp [Console.writeAll]
  | cons first rest ih =>
      rw [Console.writeAll, unlimited.write]
      simp only
      rw [ih (unlimited.extend _ _), extend_extend]
      simp [Channel.text_cons]

end Console

/-! ## Sessions -/

namespace Session

section Converse

variable {config : Config} {state : State} {read : Read} {turn : Turn}

theorem converse_of_last {result : Except String Ending}
    (stepped : step config state read = .last turn result) (rest : List Read) :
    converse config state (read :: rest) = ⟨[turn], result⟩ := by
  rw [converse, stepped]

theorem converse_of_more (stepped : step config state read = .more turn) (rest : List Read) :
    converse config state (read :: rest) =
      ⟨turn :: (converse config turn.state rest).turns, (converse config turn.state rest).result⟩ := by
  rw [converse, stepped]

end Converse

theorem Conversation.text_writes_cons (channel : Channel) (turn : Turn) (later : Conversation) :
    channel.text (Conversation.mk (turn :: later.turns) later.result).writes =
      channel.text turn.writes ++ channel.text later.writes := by
  rw [writes, List.flatMap_cons, Channel.text_append, writes]

/-- The state after some turns, the last of which decides. -/
def stateAfter (state : State) : List Turn → State
  | [] => state
  | turn :: rest => stateAfter turn.state rest

theorem Conversation.finalState_eq (conversation : Conversation) (start : State) :
    conversation.finalState start = stateAfter start conversation.turns := by
  obtain ⟨turns, result⟩ := conversation
  simp only [finalState]
  induction turns generalizing start with
  | nil => rfl
  | cons turn rest ih =>
      rw [stateAfter, ← ih, List.getLast?_cons]
      cases rest.getLast? <;> rfl

theorem play_unlimited (result : Except Failure Ending) (state : State) {console : Console}
    (unlimited : console.Unlimited) (reads : Nat) (turns : List Turn) :
    play result state console reads turns =
      ⟨result, stateAfter state turns,
        console.extend (Channel.out.text (turns.flatMap (·.writes)))
          (Channel.err.text (turns.flatMap (·.writes))), reads + turns.length⟩ := by
  induction turns generalizing state console reads with
  | nil => simp [play, stateAfter]
  | cons turn rest ih =>
      rw [play, unlimited.writeAll]
      simp only
      rw [ih turn.state (unlimited.extend _ _), Console.extend_extend, stateAfter]
      simp only [List.flatMap_cons, Channel.text_append, List.length_cons]
      rw [Nat.add_right_comm, Nat.add_assoc]

theorem run_unlimited (config : Config) (state : State) {console : Console}
    (unlimited : console.Unlimited) (reads : List Read) :
    run config state console reads =
      ⟨(converse config state reads).result.mapError .unreadable,
        (converse config state reads).finalState state,
        console.extend (Channel.out.text (banner config ++ (converse config state reads).writes))
          (Channel.err.text (banner config ++ (converse config state reads).writes)),
        (converse config state reads).turns.length⟩ := by
  rw [run, unlimited.writeAll]
  simp only
  rw [play_unlimited _ _ (unlimited.extend _ _), Console.extend_extend, Conversation.finalState_eq,
    Conversation.writes, Channel.text_append, Channel.text_append, Nat.zero_add]

end Session

end LineScript
