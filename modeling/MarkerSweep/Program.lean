import MarkerSweep.CommandLine.Help
import MarkerSweep.CommandLine.Request
import MarkerSweep.Console
import MarkerSweep.Log

/-!
# The program

`Program.run` is the whole program as a function: from a command line, an environment, a tree and
an output to an exit code, what was written, and the tree that is left.
-/

namespace MarkerSweep

/-- Why the sweep that was asked for did not come to its end. -/
inductive CommandError where
  | settings (fault : Settings.Fault)
  /-- The line of a file could not be written. -/
  | progress (fault : OutputFault)
  /-- The lines at the end could not be written. -/
  | output (fault : OutputFault)
  /-- The report could not be written. -/
  | report (fault : OutputFault)
  /-- Anything else, in words for the user. -/
  | worded (message : String)
  deriving DecidableEq, Repr

def CommandError.message : CommandError → String
  | .settings fault => fault.message
  | .progress fault => "Failed to report progress: " ++ fault.message
  | .output fault => fault.message
  | .report fault => "Failed to serialize report: " ++ fault.message
  | .worded message => message

/-- How the outcome of a sweep is written. -/
inductive Format where
  /-- A line for each file, and the tally. -/
  | lines (color : Bool)
  /-- The report as JSON. -/
  | json
  deriving DecidableEq, Repr

/-- What a sweep leaves behind. -/
structure Sweep where
  result : Except CommandError Report
  sink : Sink
  tree : Tree
  log : List LogEvent

namespace Job

/-- Runs the job and writes a line for each file, and at the end the tally. -/
def sweepToLines (j : Job) (h : Host) (t : Tree) (color : Bool) (s : Sink) : Sweep :=
  let run := j.run h t (Console.tell ⟨j.settings.dryRun, color⟩) s
  let log := j.log h t run
  match j.report? run with
  | .error fault => ⟨.error (.progress fault), run.listener, run.tree, log⟩
  | .ok report =>
    match Console.finish run.listener report.tally with
    | (.error fault, s) => ⟨.error (.output fault), s, run.tree, log⟩
    | (.ok (), s) => ⟨.ok report, s, run.tree, log⟩

/-- Runs the job and writes the report at the end. -/
def sweepToJson (j : Job) (h : Host) (t : Tree) (s : Sink) : Sweep :=
  let run := j.run h t Listener.silent ()
  let log := j.log h t run
  let report : Report := ⟨j.settings.dryRun, run.entries⟩
  match s.writeText report.toJson.pretty with
  | (.error fault, s) => ⟨.error (.report fault), s, run.tree, log⟩
  | (.ok (), s) =>
    match s.writeText ['\n'] with
    | (.error fault, s) => ⟨.error (.output fault), s, run.tree, log⟩
    | (.ok (), s) => ⟨.ok report, s, run.tree, log⟩

end Job

/-- Sweeps a tree by settings that may be faulty. -/
def Settings.sweep (settings : Settings) (h : Host) (t : Tree) (format : Format) (s : Sink) :
    Sweep :=
  match Job.ofSettings? settings with
  | .error fault => ⟨.error (.settings fault), s, t, []⟩
  | .ok j =>
    match format with
    | .lines color => j.sweepToLines h t color s
    | .json => j.sweepToJson h t s

namespace Program

/-- What the program is started with. -/
structure Call where
  /-- The command line without the name of the program. -/
  arguments : List Bytes
  /-- The environment variables that options look at. -/
  environment : CommandLine.PerField (Option Bytes)
  /-- The environment variable that asks for color. -/
  forceColor : Option Bytes
  /-- The environment variable that asks for none. -/
  noColor : Option Bytes

/-- What the program leaves behind. -/
structure Exit where
  code : Nat
  sink : Sink
  /-- What was written to standard error. -/
  messages : String
  tree : Tree

/-- Whether color is asked for in what a sweep says: by any text but `0`, the empty one too. -/
def Call.color (c : Call) : Bool :=
  match c.forceColor with
  | none => false
  | some value =>
    match Utf8.decode value with
    | .ok text => text != ['0']
    | .error _ => false

/-- Whether a variable has a value, and not the empty one. -/
def isGiven (value : Option Bytes) : Bool :=
  value.getD [] != []

/-- Whether color is asked for in what is said of the command line itself. Here any value counts,
and the variable against color wins. -/
def Call.usageColor (c : Call) : Bool :=
  isGiven c.forceColor && !isGiven c.noColor

/-- A text as it is written: where there is no color, without commands to a terminal. -/
def shown (color : Bool) (styled : String) : List Char :=
  if color then styled.toList else Text.Terminal.visible .suspends styled.toList

def errorLine (color : Bool) (e : CommandError) : String :=
  Text.paint color (.together [.bold, .red]) "error" ++ ": " ++ e.message ++ "\n"

def logText (log : List LogEvent) : String :=
  String.join (log.map fun event => event.line ++ "\n")

def perform (c : Call) (h : Host) (t : Tree) (s : Sink) (r : CommandLine.Request) : Exit :=
  let format := if r.json then .json else .lines c.color
  let sweep := r.settings.sweep h t format s
  let log := if r.verbose then logText (.verbose :: sweep.log) else ""
  match sweep.result with
  | .ok _ => ⟨0, sweep.sink, log, sweep.tree⟩
  | .error e => ⟨1, sweep.sink, log ++ errorLine c.color e, sweep.tree⟩

/-- Runs the program over a tree, with `s` as its standard output. Whether the answer to a question
can be written makes no difference to the exit code. -/
def run (c : Call) (h : Host) (t : Tree) (s : Sink) : Exit :=
  match CommandLine.parse c.arguments c.environment with
  | .error (.error e) => ⟨2, s, String.ofList (shown c.usageColor e.styled) ++ "\n", t⟩
  | .error (.question q) =>
    ⟨0, (s.writeText (shown c.usageColor (q.answer c.environment))).2, "", t⟩
  | .ok r => perform c h t s r

end Program

end MarkerSweep
