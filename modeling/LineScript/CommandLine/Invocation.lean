import LineScript.CommandLine.Misuse

/-!
# Invocations

What a command line asks for.  Arguments are taken from left to right, and the
first request for help or for the version, or the first misuse, decides.  A file
and a value that stands as an argument of its own are put off: they are only
looked at when the next known switch or another argument follows, or at the end.
-/

namespace LineScript.CommandLine

/-- The choices made on a command line. -/
structure Options where
  given : List Switch := []
  prompt : String := ">> "
  mode : Mode := .annotating
  file : Option String := none
  deriving DecidableEq, Repr

/-- Why the arguments are not read to their end. -/
inductive Interruption where
  | help
  | version
  | misuse (misuse : Misuse)
  deriving DecidableEq, Repr

/-- What is put off until more of the command line is read. -/
inductive Pending where
  /-- A switch that waits for its value, or has just been given one. -/
  | setting (switch : Switch) (value : Option String)
  | file (path : String)
  deriving DecidableEq, Repr

structure Progress where
  options : Options := {}
  pending : Option Pending := none
  /-- All further arguments are files. -/
  onlyFiles : Bool := false
  deriving DecidableEq, Repr

namespace Options

/-- Record a switch, which may be given once. -/
def give (options : Options) (switch : Switch) : Except Interruption Options :=
  if switch ∈ options.given then .error (.misuse (.repeated switch))
  else .ok { options with given := options.given ++ [switch] }

def setMode (options : Options) (value : String) : Except Interruption Options :=
  match modeNames.lookup value with
  | some mode => .ok { options with mode := mode }
  | none =>
      .error (.misuse (if value = "" then .missingValue .annotationMode else .invalidMode value))

def giveValue (options : Options) (switch : Switch) (value : String) :
    Except Interruption Options :=
  match options.give switch with
  | .error interruption => .error interruption
  | .ok options =>
      match switch with
      | .annotationMode => options.setMode value
      | _ => .ok { options with prompt := value }

end Options

namespace Progress

/-- Deal with what is put off, if there is anything. -/
def settle (progress : Progress) : Except Interruption Options :=
  match progress.pending with
  | none => .ok progress.options
  | some (.setting switch none) => .error (.misuse (.missingValue switch))
  | some (.setting switch (some value)) => progress.options.giveValue switch value
  | some (.file path) => .ok { progress.options with file := some path }

/-- What has been given, without what is put off. -/
def given (progress : Progress) : Given :=
  ⟨progress.options.given, progress.options.file.isSome⟩

/-- What has been given once all is dealt with, be it right or wrong.  A switch
that is repeated does not count at all. -/
def givenInAll (progress : Progress) : Given :=
  match progress.pending with
  | some (.setting switch (some _)) =>
      if switch ∈ progress.options.given then
        { progress.given with switches := progress.options.given.erase switch }
      else progress.given.including switch
  | some (.file _) => { progress.given with file := true }
  | _ => progress.given

def takeSwitch (progress : Progress) (switch : Switch) : Except Interruption Progress :=
  match progress.settle with
  | .error interruption => .error interruption
  | .ok options =>
      match switch with
      | .help => .error .help
      | .version => .error .version
      | _ =>
          match switch.valueName? with
          | some _ =>
              .ok { progress with options := options, pending := some (.setting switch none) }
          | none =>
              match options.give switch with
              | .ok options => .ok { progress with options := options, pending := none }
              | .error interruption => .error interruption

def takeAttached (progress : Progress) (switch : Switch) (value : String) :
    Except Interruption Progress :=
  match switch.valueName? with
  | none => .error (.misuse (.excessValue switch value progress.given))
  | some _ =>
      match progress.settle with
      | .error interruption => .error interruption
      | .ok options =>
          match options.giveValue switch value with
          | .ok options => .ok { progress with options := options, pending := none }
          | .error interruption => .error interruption

/-- Take a long switch, given the characters behind its two dashes. -/
def takeLong (progress : Progress) (chars : List Char) : Except Interruption Progress :=
  let name := String.ofList (chars.takeWhile (· != '='))
  match Switch.ofLong? name with
  | none => .error (.misuse (.unknownLong name progress.givenInAll))
  | some switch =>
      match chars.dropWhile (· != '=') with
      | [] => progress.takeSwitch switch
      | _ :: value => progress.takeAttached switch (String.ofList value)

/-- Take short switches written together behind one dash. -/
def takeShort (progress : Progress) : List Char → Except Interruption Progress
  | [] => .ok progress
  | letter :: rest =>
      match Switch.ofShort? letter with
      | none => .error (.misuse (.unknownShort letter))
      | some switch =>
          match progress.takeSwitch switch with
          | .ok progress => progress.takeShort rest
          | .error interruption => .error interruption

def hasFile (progress : Progress) : Bool := progress.givenInAll.file

/-- Take the name of a file.  There may be one. -/
def takeFile (progress : Progress) (path : String) : Except Interruption Progress :=
  if progress.hasFile then .error (.misuse (.surplus path))
  else
    match progress.settle with
    | .ok options => .ok { progress with options := options, pending := some (.file path) }
    | .error interruption => .error interruption

/-- Take an argument that is no switch: a value that is waited for, or a file. -/
def takePlain (progress : Progress) (argument : String) : Except Interruption Progress :=
  match progress.pending with
  | some (.setting switch none) =>
      .ok { progress with pending := some (.setting switch (some argument)) }
  | _ => progress.takeFile argument

/-- Take one argument.  A single dash is no switch. -/
def take (progress : Progress) (argument : String) : Except Interruption Progress :=
  if progress.onlyFiles then progress.takeFile argument
  else
    match argument.toList with
    | ['-', '-'] => .ok { progress with onlyFiles := true }
    | '-' :: '-' :: name => progress.takeLong name
    | '-' :: letter :: letters => progress.takeShort (letter :: letters)
    | _ => progress.takePlain argument

def takeAll (progress : Progress) : List String → Except Interruption Progress
  | [] => .ok progress
  | argument :: rest =>
      match progress.take argument with
      | .ok progress => progress.takeAll rest
      | .error interruption => .error interruption

end Progress

def Options.ofArguments (arguments : List String) : Except Interruption Options :=
  match Progress.takeAll {} arguments with
  | .ok progress => progress.settle
  | .error interruption => .error interruption

end LineScript.CommandLine
