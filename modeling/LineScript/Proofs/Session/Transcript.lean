import LineScript.Proofs.Session.Unlimited

/-!
# A session is a fold over its lines

A session reads up to the first read that ends it.  The lines before that read, the
blank ones left out, are interpreted one after the other, and a transcript collects
the scope and the texts of the two channels.  Blank lines still count, for a
diagnostic may give the number of its line, and a failure is fatal only when no
line was read before it.
-/

namespace LineScript

/-- Whether a session ends with a read. -/
def Read.ends : Read → Bool
  | .line text => Text.trim text = Session.stopWord
  | .endOfInput => true
  | .failure _ => true

def Read.line? : Read → Option String
  | .line text => some text
  | .endOfInput => none
  | .failure _ => none

namespace Session

/-! ## The reads of a session -/

/-- How many reads come before the one that ends the session. -/
def readsBefore (reads : List Read) : Nat := reads.findIdx Read.ends

def lastRead (reads : List Read) : Read := reads[readsBefore reads]?.getD .endOfInput

/-- The lines that are interpreted, each with its number, when some lines were read
before. -/
def numberedLines (linesRead : Nat) (reads : List Read) : List (String × Nat) :=
  (((reads.take (readsBefore reads)).filterMap Read.line?).zipIdx (linesRead + 1)).filter
    fun line => Text.trim line.1 ≠ ""

section Reads

variable {read : Read} (rest : List Read)

@[simp] theorem lastRead_nil : lastRead [] = .endOfInput := rfl

@[simp] theorem numberedLines_nil (linesRead : Nat) : numberedLines linesRead [] = [] := rfl

theorem readsBefore_of_ends (ends : read.ends = true) : readsBefore (read :: rest) = 0 := by
  simp [readsBefore, List.findIdx_cons, ends]

theorem lastRead_of_ends (ends : read.ends = true) : lastRead (read :: rest) = read := by
  simp [lastRead, readsBefore_of_ends rest ends]

theorem numberedLines_of_ends (ends : read.ends = true) (linesRead : Nat) :
    numberedLines linesRead (read :: rest) = [] := by
  simp [numberedLines, readsBefore_of_ends rest ends]

theorem readsBefore_of_continues (continues : read.ends = false) :
    readsBefore (read :: rest) = readsBefore rest + 1 := by
  simp [readsBefore, List.findIdx_cons, continues]

theorem lastRead_of_continues (continues : read.ends = false) :
    lastRead (read :: rest) = lastRead rest := by
  simp [lastRead, readsBefore_of_continues rest continues]

theorem numberedLines_of_line {text : String} (continues : (Read.line text).ends = false)
    (linesRead : Nat) :
    numberedLines linesRead (.line text :: rest) =
      (if Text.trim text = "" then [] else [(text, linesRead + 1)]) ++
        numberedLines (linesRead + 1) rest := by
  by_cases blank : Text.trim text = "" <;>
    simp [numberedLines, readsBefore_of_continues rest continues, Read.line?, blank]

end Reads

/-! ## The texts of a line -/

def rowsText (rows : List String) : String := String.join (rows.map (· ++ "\n"))

def eventRow? (config : Config) : Event → Option String
  | .declared name entry =>
      if config.echoDeclarations then some ("Declared " ++ name ++ ": " ++ entry.display) else none
  | .printed value => some value.display
  | .noted _ => none

/-- The rows on the first channel: the tokens, then what was declared and printed. -/
def outRows (config : Config) (interpretation : Interpretation) : List String :=
  (if config.showTokens then interpretation.tokens.map Token.display else []) ++
    interpretation.outcome.events.filterMap (eventRow? config)

def notedDiagnostic? : Event → Option Diagnostic
  | .noted diagnostic => some diagnostic
  | _ => none

def diagnosticText (config : Config) (line : String × Nat) (diagnostic : Diagnostic) : String :=
  match config.style with
  | .report colored => diagnostic.report colored line.1 config.origin
  | .plain =>
      match config.origin with
      | some origin =>
          origin ++ ":" ++ Numeral.naturalText line.2 ++ ": " ++ diagnostic.display ++ "\n"
      | none => diagnostic.display ++ "\n"

/-- The diagnostics on the second channel: those noted on the way, then the one that
ended the line. -/
def errText (config : Config) (line : String × Nat) (interpretation : Interpretation) : String :=
  String.join ((interpretation.outcome.events.filterMap notedDiagnostic? ++
    interpretation.outcome.failure.toList).map (diagnosticText config line))

theorem text_rows (channel other : Channel) (rows : List String) :
    channel.text (rows.map (Write.row other)) = if other = channel then rowsText rows else "" := by
  induction rows with
  | nil => simp [rowsText]
  | cons row rest ih =>
      rw [List.map_cons, Channel.text_cons, ih]
      by_cases same : other = channel <;> simp [same, Write.row, rowsText]

theorem diagnosticWrite_eq (config : Config) (line : String × Nat) (diagnostic : Diagnostic) :
    diagnosticWrite config line.2 line.1 diagnostic =
      ⟨.err, diagnosticText config line diagnostic⟩ := by
  unfold diagnosticWrite diagnosticText
  cases config.style <;> cases config.origin <;> simp [Write.row]

theorem text_diagnosticWrites (channel : Channel) (config : Config) (line : String × Nat)
    (diagnostics : List Diagnostic) :
    channel.text (diagnostics.map (diagnosticWrite config line.2 line.1)) =
      if channel = .err then String.join (diagnostics.map (diagnosticText config line)) else "" := by
  induction diagnostics with
  | nil => simp
  | cons diagnostic rest ih =>
      rw [List.map_cons, Channel.text_cons, ih, diagnosticWrite_eq]
      cases channel <;> simp

theorem out_text_event (config : Config) (line : String × Nat) (event : Event) :
    Channel.out.text (eventWrites config line.2 line.1 event) =
      rowsText (eventRow? config event).toList := by
  cases event with
  | declared name entry =>
      by_cases echo : config.echoDeclarations <;>
        simp [eventWrites, eventRow?, echo, Write.row, rowsText, Channel.text_cons]
  | printed value => simp [eventWrites, eventRow?, Write.row, rowsText, Channel.text_cons]
  | noted diagnostic =>
      simp [eventWrites, eventRow?, diagnosticWrite_eq, rowsText, Channel.text_cons]

theorem err_text_event (config : Config) (line : String × Nat) (event : Event) :
    Channel.err.text (eventWrites config line.2 line.1 event) =
      String.join ((notedDiagnostic? event).toList.map (diagnosticText config line)) := by
  cases event with
  | declared name entry =>
      by_cases echo : config.echoDeclarations <;>
        simp [eventWrites, notedDiagnostic?, echo, Write.row, Channel.text_cons]
  | printed value => simp [eventWrites, notedDiagnostic?, Write.row, Channel.text_cons]
  | noted diagnostic =>
      simp [eventWrites, notedDiagnostic?, diagnosticWrite_eq, Channel.text_cons]

theorem rowsText_append (first second : List String) :
    rowsText (first ++ second) = rowsText first ++ rowsText second := by
  simp [rowsText]

theorem out_text_events (config : Config) (line : String × Nat) (events : List Event) :
    Channel.out.text (events.flatMap (eventWrites config line.2 line.1)) =
      rowsText (events.filterMap (eventRow? config)) := by
  induction events with
  | nil => simp [rowsText]
  | cons event rest ih =>
      rw [List.flatMap_cons, Channel.text_append, ih, out_text_event, ← rowsText_append]
      cases row : eventRow? config event <;> simp [row]

theorem err_text_events (config : Config) (line : String × Nat) (events : List Event) :
    Channel.err.text (events.flatMap (eventWrites config line.2 line.1)) =
      String.join ((events.filterMap notedDiagnostic?).map (diagnosticText config line)) := by
  induction events with
  | nil => simp
  | cons event rest ih =>
      rw [List.flatMap_cons, Channel.text_append, ih, err_text_event, ← String.join_append,
        ← List.map_append]
      cases noted : notedDiagnostic? event <;> simp [noted]

theorem text_tokenWrites (channel : Channel) (config : Config) (tokens : List Token) :
    channel.text
        (if config.showTokens then tokens.map fun token => .row .out token.display else []) =
      if channel = .out then
        rowsText (if config.showTokens then tokens.map Token.display else [])
      else "" := by
  have rows := text_rows channel .out (tokens.map Token.display)
  rw [List.map_map] at rows
  by_cases shown : config.showTokens
  · simpa [shown, Function.comp_def, eq_comm] using rows
  · simp [shown, rowsText]

theorem out_text_lineWrites (config : Config) (line : String × Nat)
    (interpretation : Interpretation) :
    Channel.out.text (lineWrites config line.2 line.1 interpretation) =
      rowsText (outRows config interpretation) := by
  simp only [lineWrites, Channel.text_append]
  rw [text_tokenWrites, out_text_events, text_diagnosticWrites, outRows, rowsText_append]
  simp

theorem err_text_lineWrites (config : Config) (line : String × Nat)
    (interpretation : Interpretation) :
    Channel.err.text (lineWrites config line.2 line.1 interpretation) =
      errText config line interpretation := by
  simp only [lineWrites, Channel.text_append]
  rw [text_tokenWrites, err_text_events, text_diagnosticWrites, errText, List.map_append,
    String.join_append]
  simp

/-! ## Transcripts -/

structure Transcript where
  scope : Scope
  out : String
  err : String

/-- Interpret one more line. -/
def Transcript.interpretLine (config : Config) (transcript : Transcript) (line : String × Nat) :
    Transcript :=
  let interpretation := interpret config.mode line.1 transcript.scope
  { scope := interpretation.scope
    out := transcript.out ++ rowsText (outRows config interpretation)
    err := transcript.err ++ errText config line interpretation }

def bannerText (config : Config) : String :=
  if config.announce then
    "OtterScript v0.1.0\nType 'stop' or press Ctrl+D to quit\n\n"
  else ""

def farewellText (config : Config) : String :=
  if config.announce then "OtterScript session ended.\n" else ""

/-- What a session does at its last read: how it ends, and what it still writes. -/
structure Closing where
  result : Except Failure Ending
  out : String
  err : String

/-- The closing at a read that some lines were read before. -/
def closing (config : Config) (linesRead : Nat) : Read → Closing
  | .line _ => ⟨.ok .stopped, farewellText config, ""⟩
  | .endOfInput => ⟨.ok .endOfInput, farewellText config, ""⟩
  | .failure reason =>
      if linesRead = 0 then ⟨.error (.unreadable reason), "", ""⟩
      else ⟨.ok .inputFailed, farewellText config, "Error reading input: " ++ reason ++ "\n"⟩

theorem text_banner (channel : Channel) (config : Config) :
    channel.text (banner config) = if channel = .out then bannerText config else "" := by
  unfold banner bannerText
  cases config.announce <;> cases channel <;> decide

theorem text_farewell (channel : Channel) (config : Config) :
    channel.text (farewell config) = if channel = .out then farewellText config else "" := by
  unfold farewell farewellText
  cases config.announce <;> cases channel <;> decide

/-! ## One read -/

theorem step_of_ends (config : Config) (state : State) {read : Read} (ends : read.ends = true) :
    ∃ turn result, step config state read = .last turn result ∧
      turn.state.scope = state.scope ∧
      result.mapError .unreadable = (closing config state.linesRead read).result ∧
      Channel.out.text turn.writes = (closing config state.linesRead read).out ∧
      Channel.err.text turn.writes = (closing config state.linesRead read).err := by
  cases read with
  | line text =>
      have stop : Text.trim text = stopWord := of_decide_eq_true ends
      refine ⟨_, _, by rw [step, if_pos stop], rfl, rfl, ?_, ?_⟩
      · exact text_farewell .out config
      · exact text_farewell .err config
  | endOfInput =>
      exact ⟨_, _, rfl, rfl, rfl, text_farewell .out config, text_farewell .err config⟩
  | failure reason =>
      by_cases first : state.linesRead = 0
      · refine ⟨_, _, by rw [step, if_pos first], rfl, ?_, ?_, ?_⟩ <;> simp [closing, first]
        rfl
      · refine ⟨_, _, by rw [step, if_neg first], rfl, ?_, ?_, ?_⟩
        · simp [closing, first]
          rfl
        · simp [closing, first, Channel.text_cons, Write.row, text_farewell]
        · simp [closing, first, Channel.text_cons, Write.row, text_farewell]

theorem step_of_continues (config : Config) (state : State) {text : String}
    (continues : (Read.line text).ends = false) :
    ∃ turn, step config state (.line text) = .more turn ∧
      turn.state.linesRead = state.linesRead + 1 ∧
      ∀ out err,
        (if Text.trim text = "" then [] else [(text, state.linesRead + 1)]).foldl
            (Transcript.interpretLine config) ⟨state.scope, out, err⟩ =
          ⟨turn.state.scope, out ++ Channel.out.text turn.writes,
            err ++ Channel.err.text turn.writes⟩ := by
  have going : ¬ Text.trim text = stopWord := of_decide_eq_false continues
  by_cases blank : Text.trim text = ""
  · refine ⟨_, by rw [step, if_neg going, if_pos blank], rfl, ?_⟩
    intro out err
    simp [blank]
  · refine ⟨_, by rw [step, if_neg going, if_neg blank], rfl, ?_⟩
    intro out err
    have outText := out_text_lineWrites config (text, state.linesRead + 1)
      (interpret config.mode text state.scope)
    have errText := err_text_lineWrites config (text, state.linesRead + 1)
      (interpret config.mode text state.scope)
    simp only [if_neg blank, List.foldl_cons, List.foldl_nil, Transcript.interpretLine, processLine,
      outText, errText]

/-! ## All reads -/

theorem converse_eq_fold (config : Config) (state : State) (reads : List Read)
    (out err : String) :
    let conversation := converse config state reads
    let final := (numberedLines state.linesRead reads).foldl (Transcript.interpretLine config)
      ⟨state.scope, out, err⟩
    let closed := closing config (state.linesRead + readsBefore reads) (lastRead reads)
    conversation.turns.length = readsBefore reads + 1 ∧
      conversation.result.mapError .unreadable = closed.result ∧
      (conversation.finalState state).scope = final.scope ∧
      out ++ Channel.out.text conversation.writes = final.out ++ closed.out ∧
      err ++ Channel.err.text conversation.writes = final.err ++ closed.err := by
  intro conversation final closed
  -- The texts written so far grow with every turn, and the line numbers with the state.
  induction reads generalizing state out err with
  | nil =>
      refine ⟨rfl, rfl, rfl, ?_, ?_⟩
      · simp [conversation, final, closed, converse, Conversation.writes, closing, text_farewell]
      · simp [conversation, final, closed, converse, Conversation.writes, closing, text_farewell]
  | cons read rest ih =>
      cases ended : read.ends with
      | true =>
          obtain ⟨turn, result, stepped, scope, results, outText, errText⟩ :=
            step_of_ends config state ended
          simp only [conversation, final, closed, converse_of_last stepped,
            numberedLines_of_ends rest ended, readsBefore_of_ends rest ended,
            lastRead_of_ends rest ended, Nat.add_zero]
          refine ⟨rfl, results, scope, ?_, ?_⟩
          · simp [Conversation.writes, outText]
          · simp [Conversation.writes, errText]
      | false =>
          cases read with
          | endOfInput => contradiction
          | failure reason => contradiction
          | line text =>
              obtain ⟨turn, stepped, counted, folded⟩ := step_of_continues config state ended
              obtain ⟨length, results, scope, outs, errs⟩ := ih turn.state
                (out ++ Channel.out.text turn.writes) (err ++ Channel.err.text turn.writes)
              have lines : final = (numberedLines turn.state.linesRead rest).foldl
                  (Transcript.interpretLine config) ⟨turn.state.scope,
                    out ++ Channel.out.text turn.writes, err ++ Channel.err.text turn.writes⟩ := by
                simp only [final]
                rw [numberedLines_of_line rest ended, List.foldl_append, folded, counted]
              have ending : closed =
                  closing config (turn.state.linesRead + readsBefore rest) (lastRead rest) := by
                simp only [closed]
                rw [readsBefore_of_continues rest ended, lastRead_of_continues rest ended, counted,
                  Nat.add_right_comm, Nat.add_assoc]
              rw [lines, ending, readsBefore_of_continues rest ended]
              simp only [conversation, converse_of_more stepped]
              refine ⟨congrArg (· + 1) length, results, ?_, ?_, ?_⟩
              · rw [Conversation.finalState_eq] at scope ⊢
                exact scope
              · rw [Conversation.text_writes_cons, ← String.append_assoc, outs]
              · rw [Conversation.text_writes_cons, ← String.append_assoc, errs]

/-- On a console without limits a new session makes every read up to the first that
ends it, and what it leaves is the fold of its lines, closed by that read. -/
theorem run_eq_fold_of_lines (config : Config) (scope : Scope) (reads : List Read) :
    let held := run config ⟨scope, 0⟩ (Console.new none none) reads
    let final := (numberedLines 0 reads).foldl (Transcript.interpretLine config)
      ⟨scope, bannerText config, ""⟩
    let closed := closing config (readsBefore reads) (lastRead reads)
    held.reads = readsBefore reads + 1 ∧
      held.result = closed.result ∧
      held.state.scope = final.scope ∧
      held.console.out.written = Text.encode (final.out ++ closed.out) ∧
      held.console.err.written = Text.encode (final.err ++ closed.err) := by
  intro held final closed
  obtain ⟨length, results, scopes, outs, errs⟩ :=
    converse_eq_fold config ⟨scope, 0⟩ reads (bannerText config) ""
  rw [Nat.zero_add] at results outs errs
  simp only [held, run_unlimited config _ Console.unlimited_new]
  refine ⟨length, results, scopes, ?_, ?_⟩
  · rw [← outs]
    simp [Console.extend, Console.new, text_banner]
  · rw [← errs]
    simp [Console.extend, Console.new, text_banner]

end Session

end LineScript
