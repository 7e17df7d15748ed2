import MarkerSweep.Text.Style
import MarkerSweep.Text.Utf8

/-!
# What can be asked for

The command line has three switches, three options that take a value, and two questions. Every
switch and option may be given once.
-/

namespace MarkerSweep.CommandLine

/-- A setting that is on or off. -/
inductive Switch where
  | verbose
  | dryRun
  | json
  deriving DecidableEq, Repr

/-- A setting with a value. -/
inductive Field where
  | root
  | extension
  | marker
  deriving DecidableEq, Repr

/-- A question about the program, after which it does nothing else. -/
inductive Question where
  /-- How it is called, in a few words or in full. -/
  | help (full : Bool)
  | version
  deriving DecidableEq, Repr

/-- What an argument can name. -/
inductive Declared where
  | switch (s : Switch)
  | field (f : Field)
  | question (q : Question)
  deriving DecidableEq, Repr

def Switch.name : Switch → String
  | .verbose => "verbose"
  | .dryRun => "dry-run"
  | .json => "json"

def Field.name : Field → String
  | .root => "root"
  | .extension => "ext"
  | .marker => "prefix"

/-- What stands for the value of an option where it is described. -/
def Field.placeholder : Field → String
  | .root => "<ROOT>"
  | .extension => "<EXT>"
  | .marker => "<PREFIX>"

/-- The environment variable that gives the value of an option where the command line does not. -/
def Field.variable : Field → String
  | .root => "DARKSTRIP_ROOT"
  | .extension => "DARKSTRIP_EXT"
  | .marker => "DARKSTRIP_PREFIX"

/-- The value of an option that is given nowhere. -/
def Field.standard : Field → String
  | .root => "src"
  | .extension => "tsx"
  | .marker => "dark:"

def Question.name : Question → String
  | .help _ => "help"
  | .version => "version"

namespace Declared

/-- Everything that has a name behind two hyphens. -/
def all : List Declared :=
  [.switch .verbose, .switch .dryRun, .switch .json, .field .root, .field .extension,
    .field .marker, .question (.help true), .question .version]

def name : Declared → String
  | .switch s => s.name
  | .field f => f.name
  | .question q => q.name

/-- How it is written in messages. -/
def title : Declared → String
  | .field f => "--" ++ f.name ++ " " ++ f.placeholder
  | d => "--" ++ d.name

/-- What a name behind two hyphens stands for. -/
def ofName? (name : Bytes) : Option Declared :=
  all.find? fun d => Utf8.ofString d.name = name

/-- The letter behind one hyphen, if there is one. -/
def letter? : Declared → Option Char
  | .switch .verbose => some 'v'
  | .question (.help _) => some 'h'
  | .question .version => some 'V'
  | _ => none

def ofLetter? (c : Char) : Option Declared :=
  [.switch .verbose, .question (.help false), .question .version].find? fun d =>
    d.letter? = some c

/-- The style of names. -/
def style : Text.Style := Text.Style.only .bold

/-- Different things have different names. -/
theorem ofName?_name : ∀ d ∈ all, ofName? (Utf8.ofString d.name) = some d := by
  decide +kernel

end Declared

/-- One thing for each option. -/
structure PerField (α : Type) where
  root : α
  extension : α
  marker : α
  deriving DecidableEq, Repr

namespace PerField

variable {α : Type}

def all (a : α) : PerField α := ⟨a, a, a⟩

def get (v : PerField α) : Field → α
  | .root => v.root
  | .extension => v.extension
  | .marker => v.marker

def set (v : PerField α) (f : Field) (a : α) : PerField α :=
  match f with
  | .root => { v with root := a }
  | .extension => { v with extension := a }
  | .marker => { v with marker := a }

theorem get_set (v : PerField α) (f g : Field) (a : α) :
    (v.set f a).get g = if g = f then a else v.get g := by
  cases f <;> cases g <;> rfl

end PerField

structure Switches where
  verbose : Bool
  dryRun : Bool
  json : Bool
  deriving DecidableEq, Repr

namespace Switches

def off : Switches := ⟨false, false, false⟩

def get (v : Switches) : Switch → Bool
  | .verbose => v.verbose
  | .dryRun => v.dryRun
  | .json => v.json

def turnOn (v : Switches) : Switch → Switches
  | .verbose => { v with verbose := true }
  | .dryRun => { v with dryRun := true }
  | .json => { v with json := true }

theorem get_turnOn (v : Switches) (s u : Switch) :
    (v.turnOn s).get u = (decide (u = s) || v.get u) := by
  cases s <;> cases u <;> rfl

end Switches

end MarkerSweep.CommandLine
