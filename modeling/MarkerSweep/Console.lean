import MarkerSweep.Output
import MarkerSweep.Report
import MarkerSweep.Text.Style

/-!
# The console

The console tells of a run while it goes on: a line for each file, and at the end an empty line and
the tally.
-/

namespace MarkerSweep

/-- How the console writes. -/
structure Console where
  dryRun : Bool
  color : Bool
  deriving DecidableEq, Repr

namespace Console

open Text

def line (c : Console) (e : Entry) : String :=
  match e.outcome with
  | .processed _ =>
    if c.dryRun then paint c.color (.only .yellow) "Would process:" ++ " " ++ e.path.display
    else paint c.color (.only .green) "Processed:" ++ " " ++ e.path.display
  | .unchanged => paint c.color (.only .dim) "No changes:" ++ " " ++ e.path.display
  | .failed error =>
    paint c.color (.only .red) "Error processing" ++ " " ++ e.path.display ++ ": " ++ error

/-- Writes the line of a file. -/
def tell (c : Console) (s : Sink) (e : Entry) : Except OutputFault Unit × Sink :=
  s.writeLine (c.line e)

/-- Writes the lines at the end of a run. -/
def finish (s : Sink) (t : Tally) : Except OutputFault Unit × Sink :=
  match s.writeLine "" with
  | (.ok (), s) => s.writeLine t.line
  | (.error e, s) => (.error e, s)

/-- Writes the lines of all files, whether or not one of them fails. -/
def tellAll (c : Console) (s : Sink) : List Entry → List (Except OutputFault Unit) × Sink
  | [] => ([], s)
  | e :: rest =>
    let (told, s) := c.tell s e
    let (others, s) := c.tellAll s rest
    (told :: others, s)

end Console

end MarkerSweep
