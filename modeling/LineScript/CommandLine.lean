import LineScript.CommandLine.Folder
import LineScript.CommandLine.Invocation
import LineScript.Session

/-!
# The command

The command runs a script, holds a session, or does both, the session going on
with what the script left in scope.  Only a failure to start ends it with an
exit code other than zero: a script that cannot be read, or a first line of
input that cannot.
-/

namespace LineScript.CommandLine

open LineScript.Session

/-! ## Texts -/

def versionText : String := programName ++ " " ++ Session.version ++ "\n"

def helpText : String :=
  "Interactive interpreter for the OtterScript language\n\n" ++ usage ++
    "\nArguments:\n" ++
    "  [FILE]  A script to run line by line\n" ++
    "\nOptions:\n" ++
    "  -i, --interactive             Start the interactive session (after FILE, if given)\n" ++
    "      --prompt <TEXT>           Prompt shown before each line [default: \">> \"]\n" ++
    "      --annotation-mode <MODE>  How ';' is read: as a type annotation marker or always as a " ++
    "terminator [default: annotation] [possible values: annotation, terminator]\n" ++
    "      --tokens                  Print the classified tokens of every line\n" ++
    "  -q, --quiet                   Do not echo declarations\n" ++
    "      --report                  Show diagnostics as full reports with a source excerpt\n" ++
    "  -h, --help                    Print help\n" ++
    "  -V, --version                 Print version\n"

/-- The terminals that cannot edit a line.  The prompt is written to them before
every read. -/
def plainTerminals : List String := ["dumb", "cons25", "emacs"]

def isPlainTerminal (name : String) : Bool :=
  plainTerminals.contains (String.ofList (name.toList.map Char.toLower))

/-! ## Scripts -/

/-- What is found under the name of a script. -/
inductive Script where
  | missing
  | unreadable (reason : String)
  | text (text : String)
  deriving DecidableEq, Repr

def Script.load (path : String) : Script → Except String String
  | .missing => .error ("Error: File '" ++ path ++ "' not found\n")
  | .unreadable reason => .error ("Error reading file '" ++ path ++ "': " ++ reason ++ "\n")
  | .text content => .ok content

def Script.ofBytes (bytes : List UInt8) : Script :=
  match Text.decode? bytes with
  | some content => .text content
  | none => .unreadable Read.invalidEncoding

/-- A folder stands under the name of the script. -/
def Script.ofFolder : Script := .unreadable "Is a directory (os error 21)"

/-- The script under a path of a folder held in memory. -/
def Folder.script (folder : Folder) (path : String) : Script :=
  match folder.target path with
  | .missing => .missing
  | .folder => .ofFolder
  | .file bytes => .ofBytes bytes

/-! ## Sessions -/

namespace Options

def isGiven (options : Options) (switch : Switch) : Bool := options.given.contains switch

def config (options : Options) (colored : Bool) : Config where
  prompt := options.prompt
  mode := options.mode
  showTokens := options.isGiven .tokens
  echoDeclarations := !options.isGiven .quiet
  style := if options.isGiven .report then .report colored else .plain

def scriptConfig (options : Options) (colored : Bool) (path : String) : Config :=
  { options.config colored with announce := false, origin := some path }

end Options

def startFailure (reason : String) : String :=
  "There was an error launching the session: " ++ reason ++ "\n"

/-! ## The whole command -/

/-- What a command writes, how often it reads, and its exit code. -/
structure Execution where
  code : UInt8
  writes : List Write
  reads : Nat
  deriving DecidableEq, Repr

namespace Execution

def after (writes : List Write) (execution : Execution) : Execution :=
  { execution with writes := writes ++ execution.writes }

def fail (code : UInt8) (message : String) : Execution := ⟨code, [⟨.err, message⟩], 0⟩

end Execution

/-- What the command finds around it. -/
structure Surroundings where
  script : String → Script
  input : List Read
  /-- Whether the prompt is written before every read. -/
  promptShown : Bool
  colored : Bool

/-- The writes of a session, each turn behind its prompt. -/
def sessionWrites (config : Config) (promptShown : Bool) (turns : List Turn) : List Write :=
  let shown := if promptShown then [⟨.out, config.prompt⟩] else []
  banner config ++ turns.flatMap fun turn => shown ++ turn.writes

def holdSession (around : Surroundings) (config : Config) (scope : Scope) : Execution :=
  let conversation := converse config ⟨scope, 0⟩ around.input
  let writes := sessionWrites config around.promptShown conversation.turns
  let reads := conversation.turns.length
  match conversation.result with
  | .ok _ => ⟨0, writes, reads⟩
  | .error reason => ⟨1, writes ++ [⟨.err, startFailure reason⟩], reads⟩

/-- Run a script.  Returns what it writes and the scope it leaves. -/
def runFile (config : Config) (text : String) : List Write × Scope :=
  let start : State := ⟨.empty, 0⟩
  let conversation := converse config start (Read.ofText text)
  (conversation.writes, (conversation.finalState start).scope)

def start (around : Surroundings) (options : Options) : Execution :=
  let config := options.config around.colored
  match options.file with
  | none => holdSession around config .empty
  | some path =>
      match (around.script path).load path with
      | .error complaint => .fail 1 complaint
      | .ok text =>
          match runFile (options.scriptConfig around.colored path) text with
          | (writes, scope) =>
              if options.isGiven .interactive then (holdSession around config scope).after writes
              else ⟨0, writes, 0⟩

def execute (around : Surroundings) (arguments : List String) : Execution :=
  match Options.ofArguments arguments with
  | .error .help => ⟨0, [⟨.out, helpText⟩], 0⟩
  | .error .version => ⟨0, [⟨.out, versionText⟩], 0⟩
  | .error (.misuse misuse) => .fail 2 misuse.message
  | .ok options => start around options

end LineScript.CommandLine
