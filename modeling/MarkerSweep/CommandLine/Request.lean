import MarkerSweep.CommandLine.Argument
import MarkerSweep.CommandLine.UsageError
import MarkerSweep.Settings

/-!
# Reading a command line

The arguments are read from left to right. The value of an option is either part of its argument or
the argument after it; in the second case the value is checked only when the next declared name or
the end of the line comes. What is missing on the line is then looked for in the environment.

A fault, or a question, ends the reading.
-/

namespace MarkerSweep.CommandLine

/-- Why the reading of a command line ended before the line did. -/
inductive Stop where
  | error (e : UsageError)
  | question (q : Question)
  deriving DecidableEq, Repr

/-- What a command line asks for. -/
structure Request where
  verbose : Bool
  root : Path
  extension : String
  marker : String
  dryRun : Bool
  json : Bool
  deriving DecidableEq, Repr

/-- The settings of the run that is asked for. -/
def Request.settings (r : Request) : Settings :=
  ({ Settings.standard with root := r.root, marker := r.marker, dryRun := r.dryRun }).withExtension
    r.extension

/-! ### Values -/

/-- The text of bytes. -/
def text? (bytes : Bytes) : Except UsageError String :=
  match Utf8.decode bytes with
  | .ok text => .ok (String.ofList text)
  | .error _ => .error .notText

/-- What is wrong with the value of an option: a root must not be empty, anything else has to be
text. -/
def Field.valueError? (f : Field) (value : Bytes) : Option UsageError :=
  match f with
  | .root => if value = [] then some (.missingValue .root) else none
  | .extension | .marker =>
    match text? value with
    | .ok _ => none
    | .error e => some e

/-! ### The line -/

/-- What was read of a command line. -/
structure Reading where
  switches : Switches
  values : PerField (Option Bytes)
  /-- The option that came last, and the argument after it, if it came. -/
  pending : Option (Field × Option Bytes)
  deriving DecidableEq, Repr

namespace Reading

def start : Reading := ⟨Switches.off, PerField.all none, none⟩

/-- Gives an option its value. -/
def store (r : Reading) (f : Field) (value : Bytes) : Except Stop Reading :=
  if (r.values.get f).isSome then .error (.error (.repeated (.field f)))
  else
    match f.valueError? value with
    | some e => .error (.error e)
    | none => .ok { r with values := r.values.set f (some value) }

/-- Settles the option that came last. -/
def settle (r : Reading) : Except Stop Reading :=
  match r.pending with
  | none => .ok r
  | some (f, none) => .error (.error (.missingValue f))
  | some (f, some value) => { r with pending := none }.store f value

/-- Reads a declared name that has no value in its argument. -/
def takeName (r : Reading) (d : Declared) : Except Stop Reading :=
  match r.settle with
  | .error stop => .error stop
  | .ok r =>
    match d with
    | .switch s =>
      if r.switches.get s then .error (.error (.repeated d))
      else .ok { r with switches := r.switches.turnOn s }
    | .field f => .ok { r with pending := some (f, none) }
    | .question q => .error (.question q)

/-- Reads a declared name that has a value in its argument. -/
def takeNameWithValue (r : Reading) (d : Declared) (value : Bytes) : Except Stop Reading :=
  match d with
  | .field f =>
    match r.settle with
    | .error stop => .error stop
    | .ok r => r.store f value
  | _ => .error (.error (.unwantedValue d (Utf8.display value)))

/-- Reads the letters of a cluster, of which `rest` are the bytes and `pieces` what they are. -/
def takeLetters (r : Reading) (rest : Bytes) : List Utf8.Piece → Except Stop Reading
  | [] => .ok r
  | .char c :: pieces =>
    match Declared.ofLetter? c with
    | none => .error (.error (.unknown (String.ofList ['-', c])))
    | some d =>
      match r.takeName d with
      | .error stop => .error stop
      | .ok r => r.takeLetters (rest.drop c.utf8Size) pieces
  | _ :: _ => .error (.error (.unknown ("-" ++ Utf8.display rest)))

/-- Reads an argument that is neither an option nor a switch: it can only be a value. -/
def takePlain (r : Reading) (text : Bytes) : Except Stop Reading :=
  match r.pending with
  | some (f, none) => .ok { r with pending := some (f, some text) }
  | _ => .error (.error (.unknown (Utf8.display text)))

/-- Reads the arguments after two hyphens, where none has a meaning. -/
def takeEscaped (r : Reading) : List Bytes → Except Stop Reading
  | [] => r.settle
  | text :: _ => .error (.error (.unknown (Utf8.display text)))

/-- Reads one argument. Two hyphens by themselves change nothing. -/
def take (r : Reading) : Argument → Except Stop Reading
  | .escape => .ok r
  | .long name value =>
    match Declared.ofName? name, value with
    | none, _ => .error (.error (.unknown ("--" ++ Utf8.display name)))
    | some d, none => r.takeName d
    | some d, some value => r.takeNameWithValue d value
  | .cluster letters => r.takeLetters letters (Utf8.pieces letters)
  | .plain text => r.takePlain text

/-- Reads arguments to the end of the line. -/
def takeAll (r : Reading) : List Bytes → Except Stop Reading
  | [] => r.settle
  | bytes :: rest =>
    match Argument.ofBytes bytes with
    | .escape => r.takeEscaped rest
    | argument =>
      match r.take argument with
      | .error stop => .error stop
      | .ok r => r.takeAll rest

/-! ### The environment -/

/-- Looks for an option in the environment if the line did not give it. -/
def consult (r : Reading) (environment : PerField (Option Bytes)) (f : Field) :
    Except Stop Reading :=
  match r.values.get f, environment.get f with
  | none, some value => r.store f value
  | _, _ => .ok r

def consultAll (r : Reading) (environment : PerField (Option Bytes)) : Except Stop Reading := do
  let r ← r.consult environment .root
  let r ← r.consult environment .extension
  r.consult environment .marker

/-- The value of an option, or its standard value. -/
def valueOf (r : Reading) (f : Field) : Bytes :=
  (r.values.get f).getD (Utf8.ofString f.standard)

def request (r : Reading) : Request where
  verbose := r.switches.verbose
  root := ⟨r.valueOf .root⟩
  extension := Utf8.display (r.valueOf .extension)
  marker := Utf8.display (r.valueOf .marker)
  dryRun := r.switches.dryRun
  json := r.switches.json

end Reading

/-- Reads a command line, without the name of the program, in an environment. -/
def parse (arguments : List Bytes) (environment : PerField (Option Bytes)) :
    Except Stop Request := do
  let r ← Reading.start.takeAll arguments
  let r ← r.consultAll environment
  return r.request

end MarkerSweep.CommandLine
