import LineScript.Proofs.Session.Transcript
import Mathlib.Data.List.Infix

/-!
# Sessions on consoles with limits

A console with limits takes the writes of a session up to the first that does not fit, of
which it keeps the bytes that fit.  The session ends there, with the scope that the line
behind the write led to.  If everything fits, the limits make no difference.
-/

namespace LineScript

/-! ## Channels of a console -/

namespace Channel

theorem text_self (write : Write) : write.channel.text [write] = write.text := by
  simp [text_cons]

theorem text_of_ne {channel : Channel} {write : Write} (other : channel ≠ write.channel) :
    channel.text [write] = "" := by
  simp [text_cons, Ne.symm other]

end Channel

namespace Console

def sink (console : Console) : Channel → Sink
  | .out => console.out
  | .err => console.err

def bytes (console : Console) (channel : Channel) : List UInt8 := (console.sink channel).written

/-- A console with another sink on one channel. -/
def put (console : Console) (channel : Channel) (sink : Sink) : Console :=
  match channel with
  | .out => { console with out := sink }
  | .err => { console with err := sink }

theorem bytes_put (console : Console) (channel : Channel) (sink : Sink) :
    (console.put channel sink).bytes channel = sink.written := by
  cases channel <;> rfl

theorem bytes_put_of_ne {channel other : Channel} (different : other ≠ channel)
    (console : Console) (sink : Sink) :
    (console.put channel sink).bytes other = console.bytes other := by
  cases channel with
  | out =>
      cases other with
      | out => contradiction
      | err => rfl
  | err =>
      cases other with
      | out => rfl
      | err => contradiction

theorem write_eq_put (console : Console) (write : Write) :
    console.write write =
      (console.put write.channel ((console.sink write.channel).write (Text.encode write.text)).1,
        ((console.sink write.channel).write (Text.encode write.text)).2) := by
  obtain ⟨channel, text⟩ := write
  cases channel <;> rfl

/-- A console behind some writes that all fitted. -/
def after (console : Console) (writes : List Write) : Console :=
  console.extend (Channel.out.text writes) (Channel.err.text writes)

@[simp] theorem capacity_after (console : Console) (writes : List Write) (channel : Channel) :
    ((console.after writes).sink channel).capacity = (console.sink channel).capacity := by
  cases channel <;> rfl

@[simp] theorem bytes_after (console : Console) (writes : List Write) (channel : Channel) :
    (console.after writes).bytes channel =
      console.bytes channel ++ Text.encode (channel.text writes) := by
  cases channel <;> rfl

@[simp] theorem after_nil (console : Console) : console.after [] = console := by
  simp [after]

@[simp] theorem after_after (console : Console) (first second : List Write) :
    (console.after first).after second = console.after (first ++ second) := by
  simp [after]

/-! ## Writes that fit -/

/-- Each channel has room for its part of the writes. -/
def Takes (console : Console) (writes : List Write) : Prop :=
  ∀ channel, ∀ size ∈ (console.sink channel).capacity,
    (console.bytes channel).length + (Text.encode (channel.text writes)).length ≤ size

theorem takes_after_iff (console : Console) (first second : List Write) :
    (console.after first).Takes second ↔ console.Takes (first ++ second) := by
  simp [Takes, Nat.add_assoc]

theorem Takes.of_append {console : Console} {first second : List Write}
    (takes : console.Takes (first ++ second)) : console.Takes first := by
  intro channel size limited
  have bound := takes channel size limited
  simp only [Channel.text_append, Text.encode_append, List.length_append] at bound
  omega

end Console

theorem Sink.write_of_fits {sink : Sink} {bytes : List UInt8}
    (fits : ∀ size ∈ sink.capacity, sink.written.length + bytes.length ≤ size) :
    sink.write bytes = ({ sink with written := sink.written ++ bytes }, true) := by
  obtain ⟨capacity, written⟩ := sink
  cases capacity with
  | none => rfl
  | some size =>
      have bound := fits size rfl
      have room : bytes.length ≤ size - written.length := by
        simp only at bound
        omega
      simp [Sink.write, room, List.take_of_length_le room]

theorem Sink.write_of_overflow {sink : Sink} {bytes : List UInt8} {size : Nat}
    (limited : sink.capacity = some size) (within : sink.written.length ≤ size)
    (exceeds : size < sink.written.length + bytes.length) :
    sink.write bytes = ({ sink with written := (sink.written ++ bytes).take size }, false) := by
  have room : ¬ bytes.length ≤ size - sink.written.length := by omega
  simp [Sink.write, limited, room, List.take_append, List.take_of_length_le within]

namespace Console

variable {console : Console}

/-- A write is text on its own channel only. -/
theorem put_eq_after (console : Console) (write : Write) :
    console.put write.channel { console.sink write.channel with
      written := console.bytes write.channel ++ Text.encode write.text } = console.after [write] := by
  have nothing : Text.encode "" = [] := by decide
  obtain ⟨channel, text⟩ := write
  cases channel with
  | out => simp [put, after, extend, sink, bytes, Channel.text_cons, nothing]
  | err => simp [put, after, extend, sink, bytes, Channel.text_cons, nothing]

theorem write_of_takes {write : Write} (takes : console.Takes [write]) :
    console.write write = (console.after [write], true) := by
  have fits := takes write.channel
  rw [Channel.text_self] at fits
  rw [write_eq_put, Sink.write_of_fits fits, ← put_eq_after]
  rfl

theorem write_of_overflow {write : Write} {size : Nat}
    (limited : (console.sink write.channel).capacity = some size)
    (within : (console.bytes write.channel).length ≤ size)
    (exceeds : size < (console.bytes write.channel).length + (Text.encode write.text).length) :
    console.write write = (console.put write.channel ⟨some size,
      (console.bytes write.channel ++ Text.encode write.text).take size⟩, false) := by
  rw [write_eq_put, Sink.write_of_overflow limited within exceeds, limited]
  rfl

theorem writeAll_append_of_takes {first : List Write} (takes : console.Takes first)
    (second : List Write) :
    console.writeAll (first ++ second) = (console.after first).writeAll second := by
  induction first generalizing console with
  | nil => simp
  | cons write rest ih =>
      have split : console.Takes ([write] ++ rest) := takes
      have later := ih ((console.takes_after_iff [write] rest).mpr split)
      rw [List.cons_append, writeAll, write_of_takes split.of_append]
      simpa using later

theorem writeAll_of_takes {writes : List Write} (takes : console.Takes writes) :
    console.writeAll writes = (console.after writes, true) := by
  simpa [writeAll] using writeAll_append_of_takes takes []

theorem writeAll_append_of_overflow {first : List Write} {full : Console}
    (failed : console.writeAll first = (full, false)) (second : List Write) :
    console.writeAll (first ++ second) = (full, false) := by
  induction first generalizing console with
  | nil => simp [writeAll] at failed
  | cons write rest ih =>
      rw [writeAll] at failed
      rw [List.cons_append, writeAll]
      split at failed
      · exact ih failed
      · exact failed

/-! ## The first write that does not fit -/

/-- All writes before some write fit, and that one does not. -/
structure FirstOverflow (console : Console) (writes before : List Write) (write : Write) : Prop where
  split : before ++ [write] <+: writes
  fits : console.Takes before
  overflows : ¬ console.Takes (before ++ [write])

theorem exists_firstOverflow {writes : List Write} (start : console.Takes [])
    (exceeds : ¬ console.Takes writes) : ∃ before write, console.FirstOverflow writes before write := by
  induction writes using List.reverseRecOn with
  | nil => exact absurd start exceeds
  | append_singleton earlier write ih =>
      by_cases fits : console.Takes earlier
      · exact ⟨earlier, write, List.prefix_rfl, fits, exceeds⟩
      · obtain ⟨before, first, overflow⟩ := ih fits
        exact ⟨before, first, overflow.split.trans (List.prefix_append _ _), overflow.fits,
          overflow.overflows⟩

/-- What a console holds behind the first write that does not fit: on the channel of that write
as much as fits, elsewhere what was written before. -/
structure FullAt (console full : Console) (before : List Write) (write : Write) : Prop where
  kept : ∃ size, (console.sink write.channel).capacity = some size ∧
    full.bytes write.channel = (console.bytes write.channel ++
      Text.encode (write.channel.text (before ++ [write]))).take size ∧
    (full.bytes write.channel).length = size
  others : ∀ channel ≠ write.channel,
    full.bytes channel = console.bytes channel ++ Text.encode (channel.text before)

/-- It is the channel of the write that has no room left. -/
theorem FirstOverflow.exists_size {writes before : List Write} {write : Write}
    (overflow : console.FirstOverflow writes before write) :
    ∃ size, (console.sink write.channel).capacity = some size ∧
      (console.bytes write.channel).length +
        (Text.encode (write.channel.text before)).length ≤ size ∧
      size < (console.bytes write.channel).length +
        (Text.encode (write.channel.text before)).length + (Text.encode write.text).length := by
  obtain ⟨channel, size, limited, exceeds⟩ : ∃ channel size,
      (console.sink channel).capacity = some size ∧ size < (console.bytes channel).length +
        (Text.encode (channel.text (before ++ [write]))).length := by
    simpa [Takes] using overflow.overflows
  have within := overflow.fits channel size limited
  rw [Channel.text_append, Text.encode_append, List.length_append] at exceeds
  by_cases same : channel = write.channel
  · subst same
    rw [Channel.text_self] at exceeds
    exact ⟨size, limited, within, by omega⟩
  · have nothing : Text.encode "" = [] := by decide
    rw [Channel.text_of_ne same, nothing, List.length_nil] at exceeds
    omega

theorem writeAll_of_overflow {writes before : List Write} {write : Write}
    (overflow : console.FirstOverflow writes before write) :
    ∃ full, console.writeAll writes = (full, false) ∧ console.FullAt full before write := by
  obtain ⟨size, limited, within, exceeds⟩ := overflow.exists_size
  obtain ⟨⟨later, rfl⟩, fits, -⟩ := overflow
  have failed : (console.after before).write write =
      ((console.after before).put write.channel ⟨some size,
        ((console.after before).bytes write.channel ++ Text.encode write.text).take size⟩, false) :=
    write_of_overflow (by simpa using limited) (by simpa using within) (by simpa using exceeds)
  have stopped : console.writeAll (before ++ [write]) =
      ((console.after before).put write.channel ⟨some size,
        ((console.after before).bytes write.channel ++ Text.encode write.text).take size⟩, false) := by
    rw [writeAll_append_of_takes fits, writeAll, failed]
  refine ⟨_, writeAll_append_of_overflow stopped later, ⟨size, limited, ?_, ?_⟩, ?_⟩
  · rw [bytes_put, bytes_after, Channel.text_append, Channel.text_self, Text.encode_append,
      List.append_assoc]
  · rw [bytes_put, List.length_take, bytes_after, List.length_append, List.length_append]
    omega
  · intro channel other
    rw [bytes_put_of_ne other, bytes_after]

end Console

/-! ## Turns on a console with limits -/

namespace Session

theorem play_of_takes (result : Except Failure Ending) (state : State) {console : Console}
    (reads : Nat) {turns : List Turn} (takes : console.Takes (turns.flatMap (·.writes))) :
    play result state console reads turns =
      ⟨result, stateAfter state turns, console.after (turns.flatMap (·.writes)),
        reads + turns.length⟩ := by
  induction turns generalizing state console reads with
  | nil => simp [play, stateAfter]
  | cons turn rest ih =>
      rw [List.flatMap_cons] at takes ⊢
      rw [play, Console.writeAll_of_takes takes.of_append]
      simp only
      rw [ih turn.state (reads + 1) ((console.takes_after_iff _ _).mpr takes), Console.after_after,
        stateAfter, List.length_cons, Nat.add_right_comm, Nat.add_assoc]

/-- The turns go on up to the first whose writes do not all fit. -/
theorem play_of_overflow (result : Except Failure Ending) (state : State) {console : Console}
    (reads : Nat) {turns : List Turn} (start : console.Takes [])
    (exceeds : ¬ console.Takes (turns.flatMap (·.writes))) :
    ∃ count < turns.length, console.Takes ((turns.take count).flatMap (·.writes)) ∧
      ¬ console.Takes ((turns.take (count + 1)).flatMap (·.writes)) ∧
      play result state console reads turns =
        ⟨.error .sinkFull, stateAfter state (turns.take (count + 1)),
          (console.writeAll (turns.flatMap (·.writes))).1, reads + (count + 1)⟩ := by
  induction turns generalizing state console reads with
  | nil => exact absurd start exceeds
  | cons turn rest ih =>
      rw [List.flatMap_cons] at exceeds ⊢
      by_cases fits : console.Takes turn.writes
      · rw [← console.takes_after_iff] at exceeds
        have startLater : (console.after turn.writes).Takes [] := by
          rw [console.takes_after_iff, List.append_nil]
          exact fits
        obtain ⟨count, below, takes, overflows, played⟩ :=
          ih turn.state (reads + 1) startLater exceeds
        refine ⟨count + 1, by simpa using below, ?_, ?_, ?_⟩
        · simpa [console.takes_after_iff] using takes
        · simpa [console.takes_after_iff] using overflows
        · rw [play, Console.writeAll_of_takes fits]
          simp only
          rw [played, Console.writeAll_append_of_takes fits, List.take_succ_cons, stateAfter]
          congr 1
          omega
      · obtain ⟨before, write, overflow⟩ := Console.exists_firstOverflow start fits
        obtain ⟨full, failed, -⟩ := Console.writeAll_of_overflow overflow
        refine ⟨0, by simp, by simpa using start, by simpa using fits, ?_⟩
        rw [play, failed, Console.writeAll_append_of_overflow failed]
        simp [stateAfter]

section Run

variable (config : Config) (state : State) {console : Console} (reads : List Read)

theorem run_of_takes
    (takes : console.Takes (banner config ++ (converse config state reads).writes)) :
    run config state console reads =
      ⟨(converse config state reads).result.mapError .unreadable,
        (converse config state reads).finalState state,
        console.after (banner config ++ (converse config state reads).writes),
        (converse config state reads).turns.length⟩ := by
  rw [run, Console.writeAll_of_takes takes.of_append]
  simp only
  rw [play_of_takes _ _ _ ((console.takes_after_iff _ _).mpr takes), Console.after_after,
    Conversation.finalState_eq, Nat.zero_add]
  rfl

/-- The banner does not fit, or the turns go on up to the first that does not. -/
theorem run_of_overflow (start : console.Takes [])
    (exceeds : ¬ console.Takes (banner config ++ (converse config state reads).writes)) :
    let held := run config state console reads
    let turns := (converse config state reads).turns
    held.result = .error .sinkFull ∧
    held.console =
      (console.writeAll (banner config ++ (converse config state reads).writes)).1 ∧
    (¬ console.Takes (banner config) ∧ held.state = state ∧ held.reads = 0 ∨
      ∃ count < turns.length,
        console.Takes (banner config ++ (turns.take count).flatMap (·.writes)) ∧
        ¬ console.Takes (banner config ++ (turns.take (count + 1)).flatMap (·.writes)) ∧
        held.state = stateAfter state (turns.take (count + 1)) ∧ held.reads = count + 1) := by
  intro held turns
  by_cases greeted : console.Takes (banner config)
  · have startLater : (console.after (banner config)).Takes [] := by
      rw [console.takes_after_iff, List.append_nil]
      exact greeted
    rw [← console.takes_after_iff] at exceeds
    obtain ⟨count, below, takes, overflows, played⟩ :=
      play_of_overflow ((converse config state reads).result.mapError .unreadable) state 0
        startLater exceeds
    have ran : held = play ((converse config state reads).result.mapError .unreadable) state
        (console.after (banner config)) 0 turns := by
      simp only [held, turns, run, Console.writeAll_of_takes greeted]
    rw [ran, played, Console.writeAll_append_of_takes greeted]
    rw [console.takes_after_iff] at takes overflows
    exact ⟨rfl, rfl, .inr ⟨count, below, takes, overflows, rfl, Nat.zero_add _⟩⟩
  · obtain ⟨before, write, overflow⟩ := Console.exists_firstOverflow start greeted
    obtain ⟨full, failed, -⟩ := Console.writeAll_of_overflow overflow
    have ran : held = ⟨.error .sinkFull, state, full, 0⟩ := by
      simp only [held, run, failed]
    rw [ran, Console.writeAll_append_of_overflow failed]
    exact ⟨rfl, rfl, .inl ⟨greeted, rfl, rfl⟩⟩

end Run

/-! ## What the first reads lead to -/

def Transcript.text (transcript : Transcript) : Channel → String
  | .out => transcript.out
  | .err => transcript.err

def Closing.text (closing : Closing) : Channel → String
  | .out => closing.out
  | .err => closing.err

/-- What a session has written, and its scope, behind some reads that do not end it. -/
def transcriptAfter (config : Config) (scope : Scope) (reads : List Read) (count : Nat) :
    Transcript :=
  (numberedLines 0 (reads.take count)).foldl (Transcript.interpretLine config)
    ⟨scope, bannerText config, ""⟩

theorem numberedLines_take_readsBefore (linesRead : Nat) (reads : List Read) :
    numberedLines linesRead (reads.take (readsBefore reads)) = numberedLines linesRead reads := by
  simp [numberedLines, readsBefore, List.findIdx_take, List.take_take]

theorem exists_line_of_lt_readsBefore {reads : List Read} {count : Nat}
    (before : count < readsBefore reads) : ∃ text, reads[count]? = some (.line text) := by
  have inside : count < reads.length := Nat.lt_of_lt_of_le before List.findIdx_le_length
  have continues : reads[count].ends = false := List.not_of_lt_findIdx before
  cases read : reads[count] with
  | line text => exact ⟨text, by rw [List.getElem?_eq_getElem inside, read]⟩
  | endOfInput => simp [read, Read.ends] at continues
  | failure reason => simp [read, Read.ends] at continues

theorem converse_take_eq_fold (config : Config) (state : State) {reads : List Read} {count : Nat}
    (before : count ≤ readsBefore reads) (out err : String) :
    let turns := (converse config state reads).turns.take count
    (numberedLines state.linesRead (reads.take count)).foldl (Transcript.interpretLine config)
        ⟨state.scope, out, err⟩ =
      ⟨(stateAfter state turns).scope, out ++ Channel.out.text (turns.flatMap (·.writes)),
        err ++ Channel.err.text (turns.flatMap (·.writes))⟩ := by
  intro turns
  induction reads generalizing state count out err with
  | nil =>
      obtain rfl : count = 0 := by simpa [readsBefore] using before
      simp [turns, stateAfter]
  | cons read rest ih =>
      cases count with
      | zero => simp [turns, stateAfter]
      | succ count =>
          cases ended : read.ends with
          | true =>
              rw [readsBefore_of_ends rest ended] at before
              omega
          | false =>
              rw [readsBefore_of_continues rest ended] at before
              cases read with
              | endOfInput => contradiction
              | failure reason => contradiction
              | line text =>
                  obtain ⟨turn, stepped, counted, folded⟩ := step_of_continues config state ended
                  have later := ih turn.state (Nat.le_of_succ_le_succ before)
                    (out ++ Channel.out.text turn.writes) (err ++ Channel.err.text turn.writes)
                  rw [List.take_succ_cons, numberedLines_of_line _ ended, List.foldl_append, folded,
                    ← counted, later]
                  simp [turns, converse_of_more stepped, stateAfter, String.append_assoc]

section Beginnings

variable (config : Config) (scope : Scope) {reads : List Read} {count : Nat}

theorem transcriptAfter_eq (before : count ≤ readsBefore reads) :
    let turns := (converse config ⟨scope, 0⟩ reads).turns.take count
    transcriptAfter config scope reads count =
      ⟨(stateAfter ⟨scope, 0⟩ turns).scope,
        bannerText config ++ Channel.out.text (turns.flatMap (·.writes)),
        "" ++ Channel.err.text (turns.flatMap (·.writes))⟩ :=
  converse_take_eq_fold config ⟨scope, 0⟩ before (bannerText config) ""

theorem text_transcriptAfter (before : count ≤ readsBefore reads) (channel : Channel) :
    (transcriptAfter config scope reads count).text channel =
      channel.text (banner config ++
        ((converse config ⟨scope, 0⟩ reads).turns.take count).flatMap (·.writes)) := by
  rw [transcriptAfter_eq config scope before, Channel.text_append, text_banner]
  cases channel <;> rfl

theorem scope_transcriptAfter (before : count ≤ readsBefore reads) :
    (transcriptAfter config scope reads count).scope =
      (stateAfter ⟨scope, 0⟩ ((converse config ⟨scope, 0⟩ reads).turns.take count)).scope := by
  rw [transcriptAfter_eq config scope before]

/-- The last turn adds the closing to what the lines before it have written. -/
theorem text_closing (reads : List Read) (channel : Channel) :
    (transcriptAfter config scope reads (readsBefore reads)).text channel ++
        (closing config (readsBefore reads) (lastRead reads)).text channel =
      channel.text (banner config ++ (converse config ⟨scope, 0⟩ reads).writes) ∧
    (transcriptAfter config scope reads (readsBefore reads)).scope =
      ((converse config ⟨scope, 0⟩ reads).finalState ⟨scope, 0⟩).scope ∧
    (converse config ⟨scope, 0⟩ reads).turns.length = readsBefore reads + 1 := by
  obtain ⟨length, -, scopes, outs, errs⟩ :=
    converse_eq_fold config ⟨scope, 0⟩ reads (bannerText config) ""
  rw [Nat.zero_add] at outs errs
  rw [Channel.text_append, text_banner, transcriptAfter, numberedLines_take_readsBefore]
  refine ⟨?_, scopes.symm, length⟩
  cases channel with
  | out => exact outs.symm
  | err => exact errs.symm

end Beginnings

/-! ## Sessions that are cut short -/

/-- Each channel has room for its text. -/
def Fits (limit : Channel → Option Nat) (text : Channel → String) : Prop :=
  ∀ channel, ∀ size ∈ limit channel, (Text.encode (text channel)).length ≤ size

theorem bytes_new (out err : Option Nat) (channel : Channel) :
    (Console.new out err).bytes channel = [] := by
  cases channel <;> rfl

theorem takes_new_iff (limit : Channel → Option Nat) (writes : List Write) :
    (Console.new (limit .out) (limit .err)).Takes writes ↔
      Fits limit fun channel => channel.text writes := by
  have sizes : ∀ channel, ((Console.new (limit .out) (limit .err)).sink channel).capacity =
      limit channel := by
    intro channel
    cases channel <;> rfl
  simp only [Console.Takes, Fits, sizes, bytes_new, List.length_nil, Nat.zero_add]

theorem takes_new_nil (limit : Channel → Option Nat) :
    (Console.new (limit .out) (limit .err)).Takes [] := by
  have nothing : Text.encode "" = [] := by decide
  rw [takes_new_iff]
  intro channel size _
  simp [nothing]

/-- Where the output of a session ran out of room, and what the session then left: at the
banner nothing was read, at a line that line is interpreted like those before it, and at the
closing all lines are. -/
inductive CutShort (config : Config) (scope : Scope) (reads : List Read)
    (limit : Channel → Option Nat) (held : Run) : Prop
  | atBanner (made : held.reads = 0) (kept : held.state.scope = scope)
      (exceeds : ¬ Fits limit (Transcript.mk scope (bannerText config) "").text)
  | atLine (count : Nat) (text : String) (before : count < readsBefore reads)
      (read : reads[count]? = some (.line text)) (made : held.reads = count + 1)
      (kept : held.state.scope = (transcriptAfter config scope reads (count + 1)).scope)
      (fits : Fits limit (transcriptAfter config scope reads count).text)
      (exceeds : ¬ Fits limit (transcriptAfter config scope reads (count + 1)).text)
  | atClosing (made : held.reads = readsBefore reads + 1)
      (kept : held.state.scope =
        (transcriptAfter config scope reads (readsBefore reads)).scope)
      (fits : Fits limit (transcriptAfter config scope reads (readsBefore reads)).text)
      (exceeds : ¬ Fits limit fun channel =>
        (transcriptAfter config scope reads (readsBefore reads)).text channel ++
          (closing config (readsBefore reads) (lastRead reads)).text channel)

theorem cutShort_of_overflow (config : Config) (scope : Scope) (reads : List Read)
    (limit : Channel → Option Nat)
    (exceeds : ¬ (Console.new (limit .out) (limit .err)).Takes
      (banner config ++ (converse config ⟨scope, 0⟩ reads).writes)) :
    CutShort config scope reads limit
      (run config ⟨scope, 0⟩ (Console.new (limit .out) (limit .err)) reads) := by
  obtain ⟨-, -, cause⟩ := run_of_overflow config ⟨scope, 0⟩ reads (takes_new_nil limit) exceeds
  simp only [takes_new_iff] at cause exceeds
  obtain ⟨-, scopes, length⟩ := text_closing config scope reads .out
  rcases cause with ⟨greeting, kept, made⟩ | ⟨count, below, fits, overflows, kept, made⟩
  · have texts : (Transcript.mk scope (bannerText config) "").text =
        fun channel => channel.text (banner config) := by
      funext channel
      rw [text_banner]
      cases channel <;> rfl
    exact .atBanner made (by rw [kept]) (texts ▸ greeting)
  · rw [length] at below
    have texts := funext (text_transcriptAfter config scope (Nat.le_of_lt_succ below))
    rcases Nat.lt_succ_iff_lt_or_eq.mp below with before | rfl
    · have later := funext (text_transcriptAfter config scope before)
      obtain ⟨text, read⟩ := exists_line_of_lt_readsBefore before
      refine .atLine count text before read made ?_ (texts ▸ fits) (later ▸ overflows)
      rw [kept, scope_transcriptAfter config scope before]
    · -- The turn that does not fit is the last, so all turns are taken.
      rw [List.take_of_length_le (Nat.le_of_eq length)] at overflows kept
      have closed := funext fun channel => (text_closing config scope reads channel).1
      refine .atClosing made ?_ (texts ▸ fits) (closed ▸ exceeds)
      rw [kept, scopes, Conversation.finalState_eq]

theorem encode_text_mono {first writes : List Write} (begins : first <+: writes)
    (channel : Channel) :
    Text.encode (channel.text first) <+: Text.encode (channel.text writes) := by
  obtain ⟨later, rfl⟩ := begins
  rw [Channel.text_append, Text.encode_append]
  exact List.prefix_append _ _

theorem bytes_prefix_of_fullAt {out err : Option Nat} {full : Console} {writes before : List Write}
    {write : Write} (overflow : (Console.new out err).FirstOverflow writes before write)
    (held : (Console.new out err).FullAt full before write) (channel : Channel) :
    full.bytes channel <+: Text.encode (channel.text writes) := by
  by_cases same : channel = write.channel
  · subst same
    obtain ⟨size, -, bytes, -⟩ := held.kept
    rw [bytes, bytes_new, List.nil_append]
    exact (List.take_prefix _ _).trans (encode_text_mono overflow.split _)
  · rw [held.others channel same, bytes_new, List.nil_append]
    exact encode_text_mono ((List.prefix_append _ _).trans overflow.split) channel

section Unlimited

variable (config : Config) (scope : Scope) (reads : List Read)

theorem takes_unlimited (writes : List Write) : (Console.new none none).Takes writes :=
  (takes_new_iff (fun _ => none) writes).mpr fun _ _ limited => by contradiction

theorem bytes_run_unlimited (channel : Channel) :
    (run config ⟨scope, 0⟩ (Console.new none none) reads).console.bytes channel =
      Text.encode (channel.text (banner config ++ (converse config ⟨scope, 0⟩ reads).writes)) := by
  rw [run_of_takes config ⟨scope, 0⟩ reads (takes_unlimited _), Console.bytes_after, bytes_new,
    List.nil_append]

theorem exceeds_iff_not_takes (limit : Channel → Option Nat) :
    (∃ channel size, limit channel = some size ∧
      size < ((run config ⟨scope, 0⟩ (Console.new none none) reads).console.bytes channel).length) ↔
    ¬ (Console.new (limit .out) (limit .err)).Takes
      (banner config ++ (converse config ⟨scope, 0⟩ reads).writes) := by
  simp [takes_new_iff, Fits, bytes_run_unlimited]

end Unlimited

/-- A limit on the channels of a new session cuts it short exactly when the session without
limits writes more than fits.  What is written is the same up to there: the write that fails is
the first that does not fit, and its channel is filled to the last byte. -/
theorem run_limited_eq_or_cut_short (config : Config) (scope : Scope) (reads : List Read)
    (limit : Channel → Option Nat) :
    let free := run config ⟨scope, 0⟩ (Console.new none none) reads
    let console := Console.new (limit .out) (limit .err)
    let held := run config ⟨scope, 0⟩ console reads
    (∀ channel, held.console.bytes channel <+: free.console.bytes channel) ∧
    (held.result = .error .sinkFull ↔
      ∃ channel size, limit channel = some size ∧ size < (free.console.bytes channel).length) ∧
    (held.result ≠ .error .sinkFull →
      held.result = free.result ∧ held.state = free.state ∧ held.reads = free.reads ∧
      ∀ channel, held.console.bytes channel = free.console.bytes channel) ∧
    (held.result = .error .sinkFull →
      (∃ before write,
        console.FirstOverflow (banner config ++ (converse config ⟨scope, 0⟩ reads).writes)
          before write ∧
        console.FullAt held.console before write) ∧
      CutShort config scope reads limit held) := by
  intro free console held
  by_cases fits : console.Takes (banner config ++ (converse config ⟨scope, 0⟩ reads).writes)
  · have ran : held = _ := run_of_takes config ⟨scope, 0⟩ reads fits
    have same : ∀ channel, held.console.bytes channel = free.console.bytes channel := by
      intro channel
      rw [bytes_run_unlimited, ran, Console.bytes_after, bytes_new, List.nil_append]
    have ended : held.result ≠ .error .sinkFull := by
      rw [ran]
      cases (converse config ⟨scope, 0⟩ reads).result <;> simp [Except.mapError]
    refine ⟨?_, ?_, ?_, fun full => absurd full ended⟩
    · intro channel
      rw [same]
    · rw [exceeds_iff_not_takes]
      exact ⟨fun full => absurd full ended, fun exceeds => absurd fits exceeds⟩
    · intro _
      have ranFree : free = _ := run_of_takes config ⟨scope, 0⟩ reads (takes_unlimited _)
      refine ⟨?_, ?_, ?_, same⟩ <;> rw [ran, ranFree]
  · obtain ⟨full, consoles, -⟩ :=
      run_of_overflow config ⟨scope, 0⟩ reads (takes_new_nil limit) fits
    obtain ⟨before, write, overflow⟩ :=
      Console.exists_firstOverflow (takes_new_nil limit) fits
    obtain ⟨filled, failed, fullAt⟩ := Console.writeAll_of_overflow overflow
    rw [failed] at consoles
    have kept : console.FullAt held.console before write := consoles ▸ fullAt
    refine ⟨?_, ?_, fun ended => absurd full ended, fun _ => ⟨⟨before, write, overflow, kept⟩, ?_⟩⟩
    · intro channel
      rw [bytes_run_unlimited]
      exact bytes_prefix_of_fullAt overflow kept channel
    · rw [exceeds_iff_not_takes]
      exact ⟨fun _ => fits, fun _ => full⟩
    · exact cutShort_of_overflow config scope reads limit fits

theorem run_limited_cut_short_at_second_line :
    let config : Config := { announce := false }
    let reads : List Read := [.line "print 1", .line "print 234567", .line "print 8"]
    let held := run config ⟨.empty, 0⟩ (Console.new (some 5) (some 0)) reads
    held.result = .error .sinkFull ∧ held.reads = 2 ∧
      held.console.bytes .out = Text.encode "1\n234" ∧
      CutShort config .empty reads
        (fun channel => if channel = .out then some 5 else some 0) held := by
  intro config reads held
  have full : held.result = .error .sinkFull := by decide +kernel
  obtain ⟨-, -, -, cut⟩ := run_limited_eq_or_cut_short config .empty reads
    fun channel => if channel = .out then some 5 else some 0
  exact ⟨full, by decide +kernel, by decide +kernel, (cut full).2⟩

end Session

end LineScript
