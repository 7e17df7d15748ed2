import MarkerSweep.Report
import MarkerSweep.Settings
import MarkerSweep.Storage
import MarkerSweep.Survey

/-!
# Jobs

A job is a set of checked settings. It is run over the files that its survey finds, one after the
other, and a listener hears of each file as soon as it is done. What becomes of one file never
stops a run; a listener that does not take an entry does.

`entries_map_path` says that a run that its listener does not stop has an entry for each file, in
the order of the survey.
-/

namespace MarkerSweep

/-- Settings together with the marker that they describe. -/
structure Job where
  settings : Settings
  marker : Marker
  marker_eq : settings.marker? = .ok marker

def Job.ofSettings? (s : Settings) : Except Settings.Fault Job :=
  match h : s.marker? with
  | .ok marker => .ok ⟨s, marker, h⟩
  | .error fault => .error fault

/-- Sweeps one file. It is read, and if its text changes it is written, unless this is a dry run. -/
def Host.process (h : Host) (m : Marker) (dryRun : Bool) (t : Tree) (p : Path) : Outcome × Tree :=
  match h.readText t p with
  | .error e => (.failed e.message, t)
  | .ok text =>
    let swept := m.sweep text
    if swept.text = text then (.unchanged, t)
    else if dryRun then (.processed swept.removed, t)
    else
      match h.writeAtomic t p (Utf8.encode swept.text) with
      | (.ok (), t) => (.processed swept.removed, t)
      | (.error e, t) => (.failed e.message, t)

/-- Who hears of each file of a run: takes an entry, or refuses it for a reason in `ε`. -/
abbrev Listener (σ ε : Type) := σ → Entry → Except ε Unit × σ

def Listener.silent : Listener Unit Empty := fun _ _ => (.ok (), ())

def Listener.collect : Listener (List Entry) Empty := fun heard e => (.ok (), heard ++ [e])

/-- Takes entries as long as `capacity` lasts, keeps them, and refuses the others for `reason`. -/
def Listener.upTo {ε : Type} (capacity : Nat) (reason : ε) : Listener (List Entry) ε :=
  fun heard e =>
    if heard.length < capacity then (.ok (), heard ++ [e]) else (.error reason, heard)

/-- What a run has done when it ends. -/
structure Run (σ ε : Type) where
  /-- The files done, in order. The last one is among them also if the listener refused it. -/
  entries : List Entry
  /-- Why the listener refused the last entry, if it did. -/
  refusal : Option ε
  tree : Tree
  listener : σ

namespace Job

/-- What the job finds to do. -/
def survey (j : Job) (h : Host) (t : Tree) : Survey :=
  h.survey t j.settings.root j.settings.extension

def files (j : Job) (h : Host) (t : Tree) : List Path :=
  (j.survey h t).files

variable {σ ε : Type}

/-- Sweeps files one after the other. -/
def runOver (j : Job) (h : Host) (listener : Listener σ ε) (t : Tree) (s : σ) :
    List Path → Run σ ε
  | [] => ⟨[], none, t, s⟩
  | p :: rest =>
    let (outcome, t) := h.process j.marker j.settings.dryRun t p
    let entry : Entry := ⟨p, outcome⟩
    match listener s entry with
    | (.error reason, s) => ⟨[entry], some reason, t, s⟩
    | (.ok (), s) =>
      let run := j.runOver h listener t s rest
      { run with entries := entry :: run.entries }

def run (j : Job) (h : Host) (t : Tree) (listener : Listener σ ε) (s : σ) : Run σ ε :=
  j.runOver h listener t s (j.files h t)

/-- The report of a run, or why it was stopped. -/
def report? (j : Job) (run : Run σ ε) : Except ε Report :=
  match run.refusal with
  | some reason => .error reason
  | none => .ok ⟨j.settings.dryRun, run.entries⟩

theorem entries_map_path {j : Job} {h : Host} {t : Tree} {listener : Listener σ ε} {s : σ}
    (hr : (j.run h t listener s).refusal = none) :
    (j.run h t listener s).entries.map Entry.path = j.files h t := by
  unfold run at hr ⊢
  generalize j.files h t = paths at hr ⊢
  induction paths generalizing t s with
  | nil => rfl
  | cons p rest ih =>
    simp only [runOver] at hr ⊢
    split at hr
    · cases hr
    · exact congrArg (List.cons p) (ih hr)

end Job

end MarkerSweep
