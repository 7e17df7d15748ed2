import MarkerSweep.CommandLine.Declared
import MarkerSweep.Text.Style
import MarkerSweep.Text.Terminal

/-!
# Faults of a command line

What can be wrong with a command line, and how it is said. What the user wrote is repeated in the
message, with all the commands to a terminal that may be in it; `message` leaves them out.
-/

namespace MarkerSweep.CommandLine

open Text

/-- What is wrong with a command line. -/
inductive UsageError where
  /-- An argument that stands for nothing. -/
  | unknown (shown : String)
  /-- An option without a value, or with an empty one where that is no value. -/
  | missingValue (field : Field)
  | unwantedValue (item : Declared) (value : String)
  /-- Something that was given before. -/
  | repeated (item : Declared)
  | notText
  deriving DecidableEq, Repr

namespace UsageError

/-- The style of what is wrong. -/
def wrong : Style := Style.only .yellow

def words : UsageError → String
  | .unknown shown => "unexpected argument '" ++ wrong.wrap shown ++ "' found"
  | .missingValue field =>
    "a value is required for '" ++ wrong.wrap (Declared.field field).title ++
      "' but none was supplied"
  | .unwantedValue item value =>
    "unexpected value '" ++ wrong.wrap value ++ "' for '" ++ Declared.style.wrap item.title ++
      "' found; no more were expected"
  | .repeated item =>
    "the argument '" ++ wrong.wrap item.title ++ "' cannot be used multiple times"
  | .notText => "invalid UTF-8 was detected in one or more arguments"

/-- The error as a terminal with color is told of it. -/
def styled (e : UsageError) : String :=
  (Style.inTurn [.bold, .red]).wrap "error:" ++ " " ++ e.words

def message (e : UsageError) : String :=
  String.ofList (Terminal.visible .ends e.styled.toList)

end UsageError

end MarkerSweep.CommandLine
