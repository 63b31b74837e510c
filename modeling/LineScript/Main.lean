import LineScript.CommandLine

/-!
# The program

The command on real channels.  Every decision is made by the functions that the
pure command is built from; here their writes are performed, and lines are read
one at a time, so that a session can be held at a terminal.
-/

namespace LineScript.CommandLine

open LineScript.Session

def emit (writes : List Write) : IO PUnit := do
  for write in writes do
    let stream ←
      match write.channel with
      | .out => IO.getStdout
      | .err => IO.getStderr
    stream.putStr write.text
    stream.flush

/-- The bytes up to the next line feed, it included, or up to the end. -/
partial def nextLineBytes (stream : IO.FS.Stream) (line : List UInt8) : IO (List UInt8) := do
  match (← stream.read 1).toList with
  | [] => return line.reverse
  | byte :: _ =>
      if byte = 10 then return (byte :: line).reverse
      else nextLineBytes stream (byte :: line)

def nextRead : IO Read := do
  match (← nextLineBytes (← IO.getStdin) []) with
  | [] => return .endOfInput
  | bytes => return .ofLineBytes bytes

def findScript (path : String) : IO Script := do
  try
    return .ofBytes (← IO.FS.readBinFile path).data.toList
  catch error =>
    match error with
    | .noFileOrDirectory .. => return .missing
    | .inappropriateType _ code _ =>
        return if code = 21 then .ofFolder else .missing
    | other => return .unreadable (toString other)

/-- Take turns on the input until the session ends. -/
partial def converseOnInput (config : Config) (promptShown : Bool) (state : State) :
    IO (Except String Ending) := do
  if promptShown then emit [⟨.out, config.prompt⟩]
  match step config state (← nextRead) with
  | .more turn =>
      emit turn.writes
      converseOnInput config promptShown turn.state
  | .last turn result =>
      emit turn.writes
      return result

/-- Hold a session on the input.  Returns the exit code. -/
def holdSessionOnInput (config : Config) (promptShown : Bool) (scope : Scope) : IO UInt32 := do
  emit (banner config)
  match (← converseOnInput config promptShown ⟨scope, 0⟩) with
  | .ok _ => return 0
  | .error reason =>
      emit [⟨.err, startFailure reason⟩]
      return 1

/-- Do what the choices ask for.  Returns the exit code. -/
def startOnInput (options : Options) : IO UInt32 := do
  let colored ← (← IO.getStderr).isTty
  let terminal := (← IO.getEnv "TERM").getD ""
  let promptShown := isPlainTerminal terminal || (← (← IO.getStdin).isTty)
  let config := options.config colored
  match options.file with
  | none => holdSessionOnInput config promptShown .empty
  | some path =>
      match (← findScript path).load path with
      | .error complaint =>
          emit [⟨.err, complaint⟩]
          return 1
      | .ok text =>
          match runFile (options.scriptConfig colored path) text with
          | (writes, scope) =>
              emit writes
              if options.isGiven .interactive then holdSessionOnInput config promptShown scope
              else return 0

/-- Run the command.  Returns the exit code. -/
def executeOnInput (arguments : List String) : IO UInt32 := do
  match Options.ofArguments arguments with
  | .error .help =>
      emit [⟨.out, helpText⟩]
      return 0
  | .error .version =>
      emit [⟨.out, versionText⟩]
      return 0
  | .error (.misuse misuse) =>
      emit [⟨.err, misuse.message⟩]
      return 2
  | .ok options => startOnInput options

end LineScript.CommandLine

def main (arguments : List String) : IO UInt32 :=
  LineScript.CommandLine.executeOnInput arguments
