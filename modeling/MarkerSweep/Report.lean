import MarkerSweep.Path
import MarkerSweep.Text.Json

/-!
# Reports

A report lists what became of each file of a run, in the order of the run. The tally, the failures
and the JSON form are all read off that list.
-/

namespace MarkerSweep

inductive Outcome where
  /-- Tokens were removed, or would be outside a dry run. -/
  | processed (removed : Nat)
  /-- There were no tokens, and the file was left alone. -/
  | unchanged
  /-- The file could not be read or written. -/
  | failed (error : String)
  deriving DecidableEq, Repr

namespace Outcome

/-- Whether a file has, or would have, a new text. -/
def isProcessed : Outcome → Bool
  | .processed _ => true
  | _ => false

/-- Whether a file was left alone for want of tokens. -/
def isUnchanged : Outcome → Bool
  | .unchanged => true
  | _ => false

/-- Whether a file could not be read or written. -/
def isFailed : Outcome → Bool
  | .failed _ => true
  | _ => false

def fields : Outcome → List (String × Json)
  | .processed removed => [("status", .text "processed"), ("removed", .number removed)]
  | .unchanged => [("status", .text "unchanged")]
  | .failed error => [("status", .text "failed"), ("error", .text error)]

end Outcome

/-- A file of a run and what became of it. -/
structure Entry where
  path : Path
  outcome : Outcome
  deriving DecidableEq, Repr

def Entry.toJson (e : Entry) : Json :=
  .object (("path", .text e.path.display) :: e.outcome.fields)

/-- How many files had each outcome. -/
structure Tally where
  processed : Nat
  unchanged : Nat
  failed : Nat
  total : Nat
  deriving DecidableEq, Repr

namespace Tally

/-- The tally of a list of entries. -/
def ofEntries (entries : List Entry) : Tally where
  processed := entries.countP fun e => e.outcome.isProcessed
  unchanged := entries.countP fun e => e.outcome.isUnchanged
  failed := entries.countP fun e => e.outcome.isFailed
  total := entries.length

def line (t : Tally) : String :=
  "Processed " ++ toString t.processed ++ " files out of " ++ toString t.total ++ " total files."

def toJson (t : Tally) : Json :=
  .object [("processed", .number t.processed), ("unchanged", .number t.unchanged),
    ("failed", .number t.failed), ("total", .number t.total)]

end Tally

/-- The entries of a run, in its order. -/
structure Report where
  dryRun : Bool
  entries : List Entry
  deriving DecidableEq, Repr

namespace Report

def start (dryRun : Bool) : Report := ⟨dryRun, []⟩

def record (r : Report) (e : Entry) : Report :=
  { r with entries := r.entries ++ [e] }

/-- How many files had each outcome. -/
def tally (r : Report) : Tally :=
  Tally.ofEntries r.entries

/-- The entries of the files that failed. -/
def failures (r : Report) : List Entry :=
  r.entries.filter fun e => e.outcome.isFailed

def toJson (r : Report) : Json :=
  .object [("dry_run", .bool r.dryRun), ("files", .list (r.entries.map Entry.toJson)),
    ("summary", r.tally.toJson)]

theorem total_tally (r : Report) :
    r.tally.total = r.tally.processed + r.tally.unchanged + r.tally.failed := by
  simp only [tally, Tally.ofEntries]
  induction r.entries with
  | nil => rfl
  | cons e rest ih =>
    obtain ⟨path, outcome⟩ := e
    cases outcome <;>
      simp [Outcome.isProcessed, Outcome.isUnchanged, Outcome.isFailed, ih] <;>
      omega

end Report

end MarkerSweep
