import LineScript.Interpretation
import LineScript.Report
import LineScript.Session.Console
import LineScript.Session.Read

/-!
# Turns of a session

A turn is what a session does with one read: it interprets a line, skips a
blank one, or ends.  What it writes is listed and what it remembers is a state,
so a turn can be taken without any channel at hand.
-/

namespace LineScript

/-- How diagnostics are shown: each on one row, or as a report. -/
inductive Style where
  | plain
  | report (colored : Bool)
  deriving DecidableEq, Repr

structure Config where
  prompt : String := ">> "
  mode : Mode := .annotating
  showTokens : Bool := false
  echoDeclarations : Bool := true
  style : Style := .plain
  /-- Greet at the start and take leave at the end. -/
  announce : Bool := true
  /-- The name of the file that the lines come from. -/
  origin : Option String := none
  deriving DecidableEq, Repr

namespace Session

structure State where
  scope : Scope
  linesRead : Nat

structure Turn where
  state : State
  writes : List Write

inductive Ending where
  | stopped
  | endOfInput
  /-- Reading failed after some line was read. -/
  | inputFailed
  deriving DecidableEq, Repr

/-! ## Announcements -/

def stopWord : String := "stop"

def version : String := "0.1.0"

def banner (config : Config) : List Write :=
  if config.announce then
    [.row .out ("OtterScript v" ++ version),
      .row .out ("Type '" ++ stopWord ++ "' or press Ctrl+D to quit"), .row .out ""]
  else []

def farewell (config : Config) : List Write :=
  if config.announce then [.row .out "OtterScript session ended."] else []

/-! ## Lines -/

def diagnosticWrite (config : Config) (linesRead : Nat) (line : String)
    (diagnostic : Diagnostic) : Write :=
  match config.style, config.origin with
  | .report colored, origin => ⟨.err, diagnostic.report colored line origin⟩
  | .plain, some origin =>
      .row .err (origin ++ ":" ++ Numeral.naturalText linesRead ++ ": " ++ diagnostic.display)
  | .plain, none => .row .err diagnostic.display

def eventWrites (config : Config) (linesRead : Nat) (line : String) : Event → List Write
  | .declared name entry =>
      if config.echoDeclarations then
        [.row .out ("Declared " ++ name ++ ": " ++ entry.display)]
      else []
  | .printed value => [.row .out value.display]
  | .noted diagnostic => [diagnosticWrite config linesRead line diagnostic]

/-- What is shown of a line: its tokens, its events in order, and what ended it. -/
def lineWrites (config : Config) (linesRead : Nat) (line : String)
    (interpretation : Interpretation) : List Write :=
  let tokens :=
    if config.showTokens then interpretation.tokens.map fun token => .row .out token.display
    else []
  let events := interpretation.outcome.events.flatMap (eventWrites config linesRead line)
  let failure := interpretation.outcome.failure.toList.map (diagnosticWrite config linesRead line)
  tokens ++ events ++ failure

def processLine (config : Config) (state : State) (line : String) : Turn :=
  let interpretation := interpret config.mode line state.scope
  { state := { state with scope := interpretation.scope }
    writes := lineWrites config state.linesRead line interpretation }

/-! ## Reads -/

/-- What one read leads to: another turn to follow, or the last one.  The last
turn comes with the way the session ended, or with the reason why it could not
start. -/
inductive Step where
  | more (turn : Turn)
  | last (turn : Turn) (result : Except String Ending)

def step (config : Config) (state : State) : Read → Step
  | .endOfInput => .last ⟨state, farewell config⟩ (.ok .endOfInput)
  | .failure reason =>
      if state.linesRead = 0 then .last ⟨state, []⟩ (.error reason)
      else
        .last ⟨state, .row .err ("Error reading input: " ++ reason) :: farewell config⟩
          (.ok .inputFailed)
  | .line text =>
      let state := { state with linesRead := state.linesRead + 1 }
      if Text.trim text = stopWord then .last ⟨state, farewell config⟩ (.ok .stopped)
      else if Text.trim text = "" then .more ⟨state, []⟩
      else .more (processLine config state text)

end Session

end LineScript
