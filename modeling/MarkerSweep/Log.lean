import MarkerSweep.Job
import MarkerSweep.Text.Quoted

/-!
# The log of a run

The log is read off the run: what the survey went past and found, what was done to each file, and
how the run ended.
-/

namespace MarkerSweep

/-- What the log can tell. -/
inductive LogEvent where
  | verbose
  | noDirectory (root : Path)
  | wentPast (root : Path) (error : WalkError)
  | listed (root : Path) (extension : String) (count : Nat)
  | started (settings : Settings) (count : Nat)
  | noTokens (path : Path)
  | leftAlone (path : Path) (removed : Nat)
  | rewrote (path : Path) (removed : Nat)
  | failed (path : Path) (error : String)
  | finished (tally : Tally)

namespace LogEvent

def boolText (b : Bool) : String :=
  if b then "true" else "false"

def line : LogEvent → String
  | verbose => "DEBUG darkstrip: Verbose mode enabled"
  | noDirectory root =>
    "DEBUG darkstrip_fs::scan: scan root is not a directory, nothing to enumerate root=" ++
      root.display
  | wentPast root error =>
    "WARN darkstrip_fs::scan: skipping unreadable entry root=" ++ root.display ++ " error=" ++
      error.message
  | listed root extension count =>
    "DEBUG darkstrip_fs::scan: enumerated files root=" ++ root.display ++ " extension=" ++
      Text.quoted extension ++ " count=" ++ toString count
  | started settings count =>
    "DEBUG darkstrip_core::batch: starting batch root=" ++ settings.root.display ++
      " extension=" ++ settings.extension ++ " count=" ++ toString count ++ " dry_run=" ++
      boolText settings.dryRun
  | noTokens path => "DEBUG darkstrip_core::process: no marker tokens path=" ++ path.display
  | leftAlone path removed =>
    "DEBUG darkstrip_core::process: dry run, leaving file as is path=" ++ path.display ++
      " removed=" ++ toString removed
  | rewrote path removed =>
    "DEBUG darkstrip_core::process: rewrote file path=" ++ path.display ++ " removed=" ++
      toString removed
  | failed path error =>
    "WARN darkstrip_core::process: failed to process file path=" ++ path.display ++ " error=" ++
      error
  | finished tally =>
    "DEBUG darkstrip_core::batch: batch finished processed=" ++ toString tally.processed ++
      " unchanged=" ++ toString tally.unchanged ++ " failed=" ++ toString tally.failed

/-- The events of a survey. -/
def ofSurvey (root : Path) (extension : String) : Survey → List LogEvent
  | .noDirectory => [noDirectory root]
  | .listed errors files =>
    errors.map (wentPast root) ++ [listed root (Path.dropDots extension) files.length]

def ofEntry (dryRun : Bool) (e : Entry) : LogEvent :=
  match e.outcome with
  | .processed removed => if dryRun then leftAlone e.path removed else rewrote e.path removed
  | .unchanged => noTokens e.path
  | .failed error => failed e.path error

end LogEvent

/-- The events of a run of a job over a tree. -/
def Job.log {σ ε : Type} (j : Job) (h : Host) (t : Tree) (run : Run σ ε) : List LogEvent :=
  LogEvent.ofSurvey j.settings.root j.settings.extension (j.survey h t) ++
    LogEvent.started j.settings (j.files h t).length ::
    run.entries.map (LogEvent.ofEntry j.settings.dryRun) ++
    if run.refusal.isSome then [] else [LogEvent.finished (Tally.ofEntries run.entries)]

end MarkerSweep
