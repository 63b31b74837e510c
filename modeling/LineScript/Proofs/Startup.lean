import LineScript.CommandLine
import LineScript.Proofs.Rebuilding
import LineScript.Proofs.Session.LineEnds
import LineScript.Proofs.Session.Transcript
import LineScript.Proofs.Spacing.Trailing

/-!
# Failures to start

A command whose arguments are accepted fails in two ways only: its script cannot be read, or
the first line of its input cannot.  Nothing that a line holds makes it fail, so a session is
held behind every script that can be read, on the scope that the script leaves.
-/

namespace LineScript

open LineScript.Text

/-! ## Blank lines -/

theorem Text.isBlank_of_trim {text : String} (empty : trim text = "") :
    ∀ c ∈ text.toList, isBlank c = true := by
  have stripped : (text.toList.dropWhile isBlank).reverse.dropWhile isBlank = [] := by
    simpa [trim, dropEndWhile, ← String.toList_inj] using empty
  intro c member
  rw [← List.takeWhile_append_dropWhile (p := isBlank) (l := text.toList)] at member
  cases List.mem_append.mp member with
  | inl front => exact List.mem_takeWhile_imp front
  | inr back => exact List.dropWhile_eq_nil_iff.mp stripped c (List.mem_reverse.mpr back)

theorem interpret_of_blank (mode : Mode) {line : String} (empty : trim line = "")
    (scope : Scope) : interpret mode line scope = ⟨[], .completed [], scope⟩ := by
  have tokens : Token.ofLine mode line = [] := by
    rw [Token.ofLine, Piece.scan, Piece.scanFrom_of_blanks mode 0 [] (isBlank_of_trim empty),
      List.mapIdx_nil]
  have read : Program.ofTokens [] = .ok [] := by
    rw [Program.ofTokens, Program.readFrom]
  simp only [interpret, tokens, read]
  rfl

/-! ## Scripts -/

/-- The lines of a script before the one that stops it. -/
def linesBeforeStop (script : String) : List String :=
  ((bareLines script.toList).map String.ofList).takeWhile fun line => trim line ≠ Session.stopWord

namespace Session

/-- A line that does not stop the session has its effect on the scope, be it blank or not. -/
theorem step_of_going (config : Config) (state : State) {line : String}
    (going : trim line ≠ stopWord) :
    ∃ turn, step config state (.line line) = .more turn ∧
      turn.state.scope = (interpret config.mode line state.scope).scope := by
  by_cases blank : trim line = ""
  · refine ⟨_, by rw [step, if_neg going, if_pos blank], ?_⟩
    rw [interpret_of_blank config.mode blank]
  · exact ⟨_, by rw [step, if_neg going, if_neg blank], rfl⟩

theorem scope_converse_lines (config : Config) (state : State) (lines : List String) :
    ((converse config state (lines.map .line)).finalState state).scope =
      scopeAfterLines state.scope
        ((lines.takeWhile fun line => trim line ≠ stopWord).map (config.mode, ·)) := by
  induction lines generalizing state with
  | nil => rfl
  | cons line rest ih =>
      rw [Conversation.finalState_eq]
      by_cases stop : trim line = stopWord
      · have stepped : step config state (.line line) =
            .last ⟨{ state with linesRead := state.linesRead + 1 }, farewell config⟩
              (.ok .stopped) := by
          rw [step, if_pos stop]
        simp [converse_of_last stepped, stateAfter, stop]
      · obtain ⟨turn, stepped, scope⟩ := step_of_going config state stop
        have later := ih turn.state
        rw [Conversation.finalState_eq] at later
        simp [converse_of_more stepped, stateAfter, stop, later, scope]

/-- Once a line has been read, a session comes to an end of its own. -/
theorem converse_after_line (config : Config) (state : State) (begun : 0 < state.linesRead)
    (reads : List Read) : ∃ ending, (converse config state reads).result = .ok ending := by
  induction reads generalizing state with
  | nil => exact ⟨_, rfl⟩
  | cons read rest ih =>
      cases ended : read.ends with
      | true =>
          obtain ⟨turn, result, stepped, -, closed, -⟩ := step_of_ends config state ended
          rw [converse_of_last stepped]
          cases result with
          | ok ending => exact ⟨ending, rfl⟩
          | error reason =>
              cases read with
              | line text => cases closed
              | endOfInput => cases closed
              | failure reason =>
                  rw [closing, if_neg (Nat.pos_iff_ne_zero.mp begun)] at closed
                  cases closed
      | false =>
          cases read with
          | endOfInput => contradiction
          | failure reason => contradiction
          | line text =>
              obtain ⟨turn, stepped, counted, -⟩ := step_of_continues config state ended
              rw [converse_of_more stepped]
              exact ih turn.state (by omega)

/-- Only a first read that fails keeps a session from starting. -/
theorem converse_fails_iff (config : Config) (scope : Scope) (reads : List Read) :
    (∃ reason, (converse config ⟨scope, 0⟩ reads).result = .error reason) ↔
      ∃ reason, reads.head? = some (.failure reason) := by
  cases reads with
  | nil => simp [converse]
  | cons read rest =>
      cases read with
      | endOfInput => simp [converse, step]
      | failure reason => simp [converse, step]
      | line text =>
          by_cases stop : trim text = stopWord
          · simp [converse, step, stop]
          · obtain ⟨turn, stepped, counted, -⟩ :=
              step_of_continues config ⟨scope, 0⟩
                (show (Read.line text).ends = false by simp [Read.ends, stop])
            obtain ⟨ending, ended⟩ := converse_after_line config turn.state (by omega) rest
            simp [converse_of_more stepped, ended]

end Session

namespace CommandLine

open LineScript.Session

/-! ## Ways to fail -/

/-- A script is asked for, and no text is found under its name. -/
def LacksScript (around : Surroundings) (options : Options) : Prop :=
  ∃ path, options.file = some path ∧ ∀ text, around.script path ≠ .text text

/-- A session is to be held on the input. -/
def Options.HoldsSession (options : Options) : Prop :=
  options.file = none ∨ options.isGiven .interactive = true

/-- The first line of some bytes encodes no text. -/
def BeginsMalformed (bytes : List UInt8) : Prop :=
  ∃ line, (splitAfter 10 bytes).head? = some line ∧ decode? line = none

theorem Folder.script_eq_text_iff {folder : Folder} {path text : String} :
    folder.script path = .text text ↔
      ∃ bytes, folder.target path = .file bytes ∧ decode? bytes = some text := by
  unfold Folder.script
  cases folder.target path with
  | missing => simp
  | folder => simp [Script.ofFolder]
  | file bytes =>
      cases decoded : decode? bytes <;> simp [Script.ofBytes, decoded]

/-- Of the files in a folder, those lack that are not there or encode no text. -/
theorem lacksScript_of_folder {around : Surroundings} {folder : Folder}
    (found : around.script = folder.script) (options : Options) :
    LacksScript around options ↔ ∃ path, options.file = some path ∧
      ∀ bytes, folder.target path = .file bytes → decode? bytes = none := by
  simp only [LacksScript, found, ne_eq, Folder.script_eq_text_iff, not_exists, not_and]
  refine exists_congr fun path => and_congr_right fun _ => ?_
  rw [forall_comm]
  refine forall_congr' fun bytes => ?_
  cases decode? bytes <;> simp

theorem head?_ofBytes_eq_failure_iff {bytes : List UInt8} :
    (∃ reason, (Read.ofBytes bytes).head? = some (.failure reason)) ↔ BeginsMalformed bytes := by
  rw [Read.ofBytes, List.head?_map, BeginsMalformed]
  cases (splitAfter 10 bytes).head? with
  | none => simp
  | some line =>
      cases decoded : decode? line <;> simp [Read.ofLineBytes, decoded]

/-! ## The session on the input -/

/-- What a command still writes when its session has ended, or could not start. -/
def closingWrites : Except String Ending → List Write
  | .ok _ => []
  | .error reason => [⟨.err, startFailure reason⟩]

/-- A session fails if and only if its first read does. -/
theorem code_holdSession (around : Surroundings) (config : Config) (scope : Scope) :
    ((holdSession around config scope).code = 1 ↔
      ∃ reason, around.input.head? = some (.failure reason)) ∧
    ((holdSession around config scope).code = 0 ∨ (holdSession around config scope).code = 1) := by
  have fails := converse_fails_iff config scope around.input
  rw [holdSession]
  cases result : (converse config ⟨scope, 0⟩ around.input).result with
  | ok ending =>
      simp only [result, reduceCtorEq, exists_false, false_iff] at fails
      simp [fails]
  | error reason =>
      simp only [result, Except.error.injEq, exists_eq', true_iff] at fails
      simp [fails]

theorem reads_holdSession (around : Surroundings) (config : Config) (scope : Scope) :
    (holdSession around config scope).reads = (converse config ⟨scope, 0⟩ around.input).turns.length := by
  rw [holdSession]
  cases (converse config ⟨scope, 0⟩ around.input).result <;> rfl

theorem writes_holdSession (around : Surroundings) (config : Config) (scope : Scope) :
    let held := converse config ⟨scope, 0⟩ around.input
    (holdSession around config scope).writes =
      sessionWrites config around.promptShown held.turns ++ closingWrites held.result := by
  intro held
  rw [holdSession]
  cases held.result <;> simp [held, closingWrites]

/-! ## The whole command -/

/-- The scope that a script leaves is that of its lines before the one that stops it. -/
theorem scope_runFile (config : Config) (text : String) :
    (runFile config text).2 =
      scopeAfterLines .empty ((linesBeforeStop text).map (config.mode, ·)) := by
  have reads : Read.ofText text = ((bareLines text.toList).map String.ofList).map .line := by
    rw [Read.ofText_eq, List.map_map]
    rfl
  rw [runFile, reads]
  exact scope_converse_lines config ⟨.empty, 0⟩ _

/-- A script has no read that fails, so its lines alone decide how it ends. -/
theorem converse_script (config : Config) (text : String) :
    ∃ ending, (converse config ⟨.empty, 0⟩ (Read.ofText text)).result = .ok ending := by
  have fails := converse_fails_iff config .empty (Read.ofText text)
  cases result : (converse config ⟨.empty, 0⟩ (Read.ofText text)).result with
  | ok ending => exact ⟨ending, rfl⟩
  | error reason =>
      obtain ⟨other, head⟩ := fails.mp ⟨reason, result⟩
      rw [Read.ofText, List.head?_map, Option.map_eq_some_iff] at head
      obtain ⟨line, -, clash⟩ := head
      cases clash

section Start

variable {around : Surroundings} {options : Options}

/-- For a script that cannot be read there is one complaint, whatever the input holds. -/
theorem start_of_lacks (lacks : LacksScript around options) :
    ∃ complaint, ∀ input, start { around with input := input } options =
      ⟨1, [⟨.err, complaint⟩], 0⟩ := by
  obtain ⟨path, named, missing⟩ := lacks
  cases found : around.script path with
  | text text => exact absurd found (missing text)
  | missing => exact ⟨_, fun input => by simp only [start, named, found]; rfl⟩
  | unreadable reason => exact ⟨_, fun input => by simp only [start, named, found]; rfl⟩

theorem start_without_session {path text : String} (named : options.file = some path)
    (found : around.script path = .text text) (single : options.isGiven .interactive = false) :
    (start around options).code = 0 := by
  simp [start, named, found, Script.load, single]

theorem start_with_session {path text : String} (named : options.file = some path)
    (found : around.script path = .text text) (goesOn : options.isGiven .interactive = true) :
    start around options =
      (holdSession around (options.config around.colored)
        (scopeAfterLines .empty ((linesBeforeStop text).map (options.mode, ·)))).after
        (converse (options.scriptConfig around.colored path) ⟨.empty, 0⟩
          (Read.ofText text)).writes := by
  have scope := scope_runFile (options.scriptConfig around.colored path) text
  simp only [start, named, found, Script.load, goesOn, if_true, scope]
  rfl

/-- What gives a command the exit code of a failure. -/
theorem code_start (around : Surroundings) (options : Options) :
    ((start around options).code = 1 ↔ LacksScript around options ∨
      options.HoldsSession ∧ ∃ reason, around.input.head? = some (.failure reason)) ∧
    ((start around options).code = 0 ∨ (start around options).code = 1) := by
  cases named : options.file with
  | none =>
      have lacksNot : ¬ LacksScript around options := by simp [LacksScript, named]
      have holds : options.HoldsSession := .inl named
      have held := code_holdSession around (options.config around.colored) .empty
      simpa only [start, named, lacksNot, holds, true_and, false_or] using held
  | some path =>
      by_cases lacks : LacksScript around options
      · obtain ⟨complaint, failed⟩ := start_of_lacks lacks
        simp [lacks, failed around.input]
      · obtain ⟨text, found⟩ : ∃ text, around.script path = .text text := by
          simpa [LacksScript, named] using lacks
        cases goesOn : options.isGiven .interactive with
        | false =>
            have holdsNot : ¬ options.HoldsSession := by simp [Options.HoldsSession, named, goesOn]
            simp [lacks, holdsNot, start_without_session named found goesOn]
        | true =>
            have holds : options.HoldsSession := .inr goesOn
            rw [start_with_session named found goesOn]
            simpa only [lacks, holds, true_and, false_or, Execution.after] using
              code_holdSession around (options.config around.colored) _

end Start

/-- How a command goes on behind a script: it holds a session on what the script left in scope
where it stopped.  The session counts its lines from zero and knows no origin. -/
structure GoesOnBehind (script : Conversation) (around : Surroundings) (options : Options)
    (scope : Scope) (execution : Execution) : Prop where
  left : (script.finalState ⟨.empty, 0⟩).scope = scope
  origin : (options.config around.colored).origin = none
  lines : execution.reads = readsBefore around.input + 1
  reads : execution.reads =
    (converse (options.config around.colored) ⟨scope, 0⟩ around.input).turns.length
  writes :
    let config := options.config around.colored
    let held := converse config ⟨scope, 0⟩ around.input
    execution.writes = script.writes ++
      (sessionWrites config around.promptShown held.turns ++ closingWrites held.result)

/-- Of the commands that are accepted, those end with exit code one whose script lacks, which then
write nothing on the first channel and read nothing, and those that hold a session on an
input whose first line is no text.  All others end with exit code zero, whatever their lines
do: a script that can be read comes to its end, and the session behind it is held. -/
theorem only_failure_to_start_is_fatal (around : Surroundings) (stdin : List UInt8)
    (given : around.input = Read.ofBytes stdin) (arguments : List String) (options : Options)
    (accepted : Options.ofArguments arguments = .ok options) :
    let execution := execute around arguments
    let fails := LacksScript around options ∨ options.HoldsSession ∧ BeginsMalformed stdin
    (execution.code = 1 ↔ fails) ∧ (execution.code = 0 ↔ ¬ fails) ∧
    (LacksScript around options → Channel.out.text execution.writes = "" ∧ execution.reads = 0 ∧
      ∀ input, execute { around with input := input } arguments = execution) ∧
    (∀ folder : Folder, around.script = folder.script →
      (LacksScript around options ↔ ∃ path, options.file = some path ∧
        ∀ bytes, folder.target path = .file bytes → decode? bytes = none)) ∧
    ∀ path text, options.file = some path → around.script path = .text text →
      let script := converse (options.scriptConfig around.colored path) ⟨.empty, 0⟩
        (Read.ofText text)
      (∃ ending, script.result = .ok ending) ∧ (options.isGiven .interactive = true →
        GoesOnBehind script around options
          (scopeAfterLines .empty ((linesBeforeStop text).map (options.mode, ·))) execution) := by
  intro execution fails
  have started (input : List Read) : execute { around with input := input } arguments =
      start { around with input := input } options := by
    simp only [execute, accepted]
  have begun : execution = start around options := started around.input
  obtain ⟨one, either⟩ := code_start around options
  rw [given, head?_ofBytes_eq_failure_iff, ← begun] at one
  rw [← begun] at either
  have zero : execution.code = 0 ↔ ¬ execution.code = 1 := by
    rcases either with code | code <;> simp [code]
  refine ⟨one, zero.trans (not_congr one), ?_,
    fun folder found => lacksScript_of_folder found options, ?_⟩
  · intro lacks
    obtain ⟨complaint, failed⟩ := start_of_lacks lacks
    have whole : execution = ⟨1, [⟨.err, complaint⟩], 0⟩ := begun.trans (failed around.input)
    refine ⟨by simp [whole, Channel.text_cons], by rw [whole], fun input => ?_⟩
    rw [started, failed, whole]
  · intro path text named found script
    refine ⟨converse_script _ text, fun goesOn => ?_⟩
    let config := options.config around.colored
    let scope := scopeAfterLines .empty ((linesBeforeStop text).map (options.mode, ·))
    obtain ⟨length, -⟩ := converse_eq_fold config ⟨scope, 0⟩ around.input "" ""
    have whole : execution = (holdSession around config scope).after script.writes :=
      begun.trans (start_with_session named found goesOn)
    have reads : execution.reads = (converse config ⟨scope, 0⟩ around.input).turns.length := by
      rw [whole]
      exact reads_holdSession around config scope
    refine ⟨scope_runFile _ text, rfl, reads.trans length, reads, ?_⟩
    rw [whole, Execution.after, writes_holdSession]

theorem only_failure_to_start_is_fatal_behind_script :
    let text := "set x = 1\nset x = 2\nstop\nlet y = 3\n"
    let folder := Folder.ofContents [] [("lib", encode text)]
    let stdin : List UInt8 := [255, 10] ++ encode "print x"
    let around : Surroundings := ⟨folder.script, Read.ofBytes stdin, false, false⟩
    let options : Options := { given := [.interactive], file := some "lib" }
    let execution := execute around ["lib", "-i"]
    Options.ofArguments ["lib", "-i"] = .ok options ∧ BeginsMalformed stdin ∧
      linesBeforeStop text = ["set x = 1", "set x = 2"] ∧ execution.code = 1 ∧
      execution.reads = 1 := by
  intro text folder stdin around options execution
  have accepted : Options.ofArguments ["lib", "-i"] = .ok options := rfl
  have malformed : BeginsMalformed stdin := ⟨[255, 10], by decide, by decide +kernel⟩
  have found : around.script "lib" = .text text := by decide +kernel
  have goesOn : options.isGiven .interactive = true := by decide
  obtain ⟨one, -, -, -, behind⟩ :=
    only_failure_to_start_is_fatal around stdin rfl ["lib", "-i"] options accepted
  have reads := ((behind "lib" text rfl found).2 goesOn).lines
  have first : readsBefore around.input = 0 := by decide +kernel
  refine ⟨accepted, malformed, by decide +kernel, one.mpr (.inr ⟨.inr goesOn, malformed⟩), ?_⟩
  rw [first] at reads
  exact reads

end CommandLine

end LineScript
