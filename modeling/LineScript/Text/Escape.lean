/-!
# Escape sequences

An escape sequence is a command to a terminal.  It starts with the escape
character, and what follows tells where it ends.  Only what stands outside of
such sequences is seen, and of the control characters only the ASCII blanks.
-/

namespace LineScript.Text

/-- How much of an escape sequence is read. -/
inductive EscapeState where
  | outside
  | started
  /-- Behind a character that announces a final one. -/
  | announced
  | parameters
  /-- Within a system command, which the bell ends. -/
  | command
  /-- Behind the start of a device control string. -/
  | device
  | deviceParameters
  /-- Behind a character that announces the text of a device control string. -/
  | deviceAnnounced
  /-- Within a string, which the byte of a string terminator ends. -/
  | string
  deriving DecidableEq, Repr

def isControlBlank (c : Char) : Bool :=
  c == '\t' || c == '\n' || c == '\x0c' || c == '\r'

/-- Whether a character can be seen outside of a sequence. -/
def isSeen (c : Char) : Bool :=
  isControlBlank c || (' ' ≤ c && c != '\x7f')

namespace EscapeState

/-- Whether a character that can be seen is seen in a state.  Most sequences are
broken off by a blank. -/
def shows (state : EscapeState) (c : Char) : Bool :=
  match state with
  | .outside => true
  | .started | .announced | .parameters => isControlBlank c
  | .command | .device | .deviceParameters | .deviceAnnounced | .string => false

/-- The state behind the character that follows the escape character. -/
def start (c : Char) : EscapeState :=
  if ' ' ≤ c && c ≤ '/' then .announced
  else if c == '[' then .parameters
  else if c == ']' then .command
  else if c == 'P' then .device
  else if c == 'X' || c == '^' || c == '_' then .string
  else if '0' ≤ c && c ≤ '~' then .outside
  else .started

/-- The state behind a character of a device control string before its text.
Parameters that follow each other in the wrong order void the text. -/
def afterDevice (state : EscapeState) (c : Char) : EscapeState :=
  if '@' ≤ c && c ≤ '~' then .string
  else if ' ' ≤ c && c ≤ '/' then .deviceAnnounced
  else if '0' ≤ c && c ≤ '?' then
    match state with
    | .device => .deviceParameters
    | .deviceParameters => if c ≤ ';' then .deviceParameters else .string
    | _ => .string
  else state

/-- Whether the encoding of a character has the byte of a string terminator.
Within a string bytes are not put together to characters. -/
def endsString (c : Char) : Bool := (String.utf8EncodeChar c).contains 0x9C

/-- The state behind a character that is not seen. -/
def next (state : EscapeState) (c : Char) : EscapeState :=
  if c == '\x1b' then .started
  else if c == '\x18' || c == '\x1a' then .outside
  else
    match state with
    | .outside => .outside
    | .started => start c
    | .announced => if '0' ≤ c && c ≤ '~' then .outside else .announced
    | .parameters => if '@' ≤ c && c ≤ '~' then .outside else .parameters
    | .command => if c == '\x07' then .outside else .command
    | .device | .deviceParameters | .deviceAnnounced => afterDevice state c
    | .string => if endsString c then .outside else .string

end EscapeState

/-- What is seen of some characters.  Behind one that is seen all are seen, up
to the next that cannot be. -/
def visibleFrom : (state : EscapeState) → (seeing : Bool) → List Char → List Char
  | _, _, [] => []
  | state, seeing, c :: rest =>
      if isSeen c && (seeing || state.shows c) then
        c :: visibleFrom (if c ≤ '\x7f' then state else .outside) true rest
      else visibleFrom (state.next c) false rest

def visible (text : String) : String :=
  String.ofList (visibleFrom .outside false text.toList)

end LineScript.Text
