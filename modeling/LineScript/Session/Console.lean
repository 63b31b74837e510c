import LineScript.Text.Encoding

/-!
# Consoles

A session writes on two channels.  Each channel ends in a sink that may take
only so many bytes: it keeps the bytes that fit, and the first byte that does
not makes the write fail.
-/

namespace LineScript

inductive Channel where
  | out
  | err
  deriving DecidableEq, Repr

structure Write where
  channel : Channel
  text : String
  deriving DecidableEq, Repr

def Write.row (channel : Channel) (text : String) : Write := ⟨channel, text ++ "\n"⟩

/-- The text of the writes on one channel. -/
def Channel.text (channel : Channel) (writes : List Write) : String :=
  String.join ((writes.filter (·.channel = channel)).map (·.text))

structure Sink where
  capacity : Option Nat
  written : List UInt8
  deriving DecidableEq, Repr

namespace Sink

/-- Write some bytes.  The Boolean tells whether all of them fitted. -/
def write (sink : Sink) (bytes : List UInt8) : Sink × Bool :=
  match sink.capacity with
  | none => ({ sink with written := sink.written ++ bytes }, true)
  | some capacity =>
      let room := capacity - sink.written.length
      ({ sink with written := sink.written ++ bytes.take room }, bytes.length ≤ room)

end Sink

structure Console where
  out : Sink
  err : Sink
  deriving DecidableEq, Repr

namespace Console

def new (outCapacity errCapacity : Option Nat) : Console :=
  ⟨⟨outCapacity, []⟩, ⟨errCapacity, []⟩⟩

def write (console : Console) (write : Write) : Console × Bool :=
  let bytes := Text.encode write.text
  match write.channel with
  | .out =>
      match console.out.write bytes with
      | (sink, fitted) => ({ console with out := sink }, fitted)
  | .err =>
      match console.err.write bytes with
      | (sink, fitted) => ({ console with err := sink }, fitted)

/-- Write in order, up to the first write that fails.  The Boolean tells whether
none did. -/
def writeAll (console : Console) : List Write → Console × Bool
  | [] => (console, true)
  | first :: rest =>
      match console.write first with
      | (console, true) => console.writeAll rest
      | (console, false) => (console, false)

end Console

end LineScript
