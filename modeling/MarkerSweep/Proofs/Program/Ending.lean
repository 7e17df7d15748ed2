import MarkerSweep.Program
import MarkerSweep.Proofs.Console.Transcript
import MarkerSweep.Proofs.Report.Lossless
import MarkerSweep.Proofs.Settings
import MarkerSweep.Proofs.Walk.Visits

/-!
# How the program ends

What stops the program before a run leaves the tree alone, and a run ends well whatever becomes of
its files: `run_exit`, for an output that takes everything. What is written tells of the same
outcomes as lines and as JSON (`Format.Tells`).
-/

namespace MarkerSweep

/-- What is written in a format tells of these entries: as lines, or as JSON that is read back. -/
def Format.Tells (dryRun : Bool) (entries : List Entry) : Format → List Char → Prop
  | .lines color, text => Console.TellsAll ⟨dryRun, color⟩ entries text
  | .json, text => ∃ report, text = report ++ ['\n'] ∧
      (Json.read? report).bind Json.content? =
        some ⟨dryRun, entries.map fun e => (e.path.display, e.outcome), .ofEntries entries⟩

namespace Job

variable {s : Sink}

/-- The run of a job that nobody listens to. -/
def course (j : Job) (h : Host) (t : Tree) : Run Unit Empty :=
  j.run h t Listener.silent ()

theorem course_eq (j : Job) (h : Host) (t : Tree) :
    (j.course h t).refusal = none ∧
      (j.course h t).entries = j.entriesOver h t (j.files h t) ∧
      (j.course h t).tree = j.treeAfter h t (j.files h t) :=
  j.runOver_of_takes h (fun _ _ => rfl) t () (j.files h t)

theorem course_paths (j : Job) (h : Host) (t : Tree) :
    (j.course h t).entries.map Entry.path = j.files h t :=
  entries_map_path (j.course_eq h t).1

/-- What is written of a run with these entries. -/
def written (j : Job) (entries : List Entry) : Format → List Char
  | .lines color => Console.transcript ⟨j.settings.dryRun, color⟩ entries
  | .json => (Report.mk j.settings.dryRun entries).toJson.pretty ++ ['\n']

theorem tells_written (j : Job) (entries : List Entry) (format : Format) :
    format.Tells j.settings.dryRun entries (j.written entries format) := by
  cases format with
  | lines color => exact Console.tells_transcript _ entries
  | json =>
    refine ⟨_, rfl, ?_⟩
    rw [Json.read?_pretty, Option.bind_some, Json.content?_toJson]
    rfl

/-- What a run leaves behind, on an output that takes everything. -/
def sweepAs (j : Job) (h : Host) (t : Tree) (s : Sink) (format : Format) : Sweep where
  result := .ok ⟨j.settings.dryRun, (j.course h t).entries⟩
  sink := s.took (j.written (j.course h t).entries format)
  tree := (j.course h t).tree
  log := j.log h t (j.course h t)

theorem sweepToLines_unlimited (j : Job) (h : Host) (t : Tree) (color : Bool) (hs : s.room = none) :
    j.sweepToLines h t color s = j.sweepAs h t s (.lines color) := by
  let c : Console := ⟨j.settings.dryRun, color⟩
  obtain ⟨hrefusal, hentries, htree⟩ := j.course_eq h t
  obtain ⟨htakes, hafter⟩ := c.tell_takes hs (j.entriesOver h t (j.files h t))
  have hrun : j.run h t c.tell s = ⟨(j.course h t).entries, none, (j.course h t).tree,
      s.took (c.lines (j.course h t).entries)⟩ := by
    rw [hentries, htree, ← hafter]
    exact j.runOver_eq_of_takes h c.tell htakes
  have hlog : j.log h t (j.run h t c.tell s) = j.log h t (j.course h t) := by
    unfold log
    rw [hrun, hrefusal]
    rfl
  unfold sweepToLines sweepAs
  simp only [report?]
  rw [← hlog, hrun]
  simp only
  rw [Console.finish_unlimited (Sink.took_unlimited hs _), Sink.took_took]
  rfl

theorem sweepToJson_unlimited (j : Job) (h : Host) (t : Tree) (hs : s.room = none) :
    j.sweepToJson h t s = j.sweepAs h t s .json := by
  unfold sweepToJson
  simp only
  rw [Sink.writeText_unlimited hs]
  simp only
  rw [Sink.writeText_unlimited (Sink.took_unlimited hs _), Sink.took_took]
  rfl

end Job

/-- On an output without a limit, the form of the answer decides only what is written. -/
theorem Settings.sweep_unlimited {settings : Settings} {j : Job} {s : Sink}
    (hj : Job.ofSettings? settings = .ok j) (h : Host) (t : Tree) (format : Format)
    (hs : s.room = none) : settings.sweep h t format s = j.sweepAs h t s format := by
  unfold sweep
  rw [hj]
  cases format with
  | lines color => exact j.sweepToLines_unlimited h t color hs
  | json => exact j.sweepToJson_unlimited h t hs

namespace CommandLine.Request

/-- The extension is empty behind its full stops, or the marker is empty or too long. -/
def Faulty (r : Request) : Prop :=
  Path.dropDots r.extension = "" ∨ r.marker = "" ∨ Marker.maxLength < r.marker.utf8ByteSize

instance (r : Request) : Decidable r.Faulty :=
  inferInstanceAs (Decidable (_ ∨ _))

theorem faulty_settings {r : Request} : r.settings.Faulty ↔ r.Faulty := by
  have hextension : Path.dropDots r.settings.extension = Path.dropDots r.extension :=
    Path.dropDots_dropDots _
  unfold Faulty Settings.Faulty
  rw [hextension]
  show _ ∨ ¬ Marker.Serves r.marker ↔ _
  unfold Marker.Serves
  rw [not_and_or, not_not, not_le]

def format (r : Request) (color : Bool) : Format :=
  if r.json then .json else .lines color

end CommandLine.Request

namespace Program

/-- The program ended with this code, this output and this tree. -/
structure Exit.Leaves (x : Exit) (code : Nat) (sink : Sink) (t : Tree) : Prop where
  code_eq : x.code = code
  sink_eq : x.sink = sink
  tree_eq : x.tree = t

variable {c : Call} {h : Host} {t : Tree} {s : Sink} {r : CommandLine.Request}

theorem run_of_request (hr : CommandLine.parse c.arguments c.environment = .ok r) :
    run c h t s = perform c h t s r := by
  simp only [run, hr]

theorem perform_faulty (hr : r.Faulty) : (perform c h t s r).Leaves 1 s t := by
  obtain ⟨fault, hfault⟩ :=
    Job.exists_fault_of_faulty (CommandLine.Request.faulty_settings.mpr hr)
  have hsweep : r.settings.sweep h t (if r.json then .json else .lines c.color) s =
      ⟨.error (.settings fault), s, t, []⟩ := by
    unfold Settings.sweep
    rw [hfault]
  unfold perform
  simp only
  rw [hsweep]
  exact ⟨rfl, rfl, rfl⟩

theorem perform_job {j : Job} (hj : Job.ofSettings? r.settings = .ok j) (hs : s.room = none) :
    (perform c h t s r).Leaves 0
      (s.took (j.written (j.course h t).entries (r.format c.color))) (j.course h t).tree := by
  have hsweep : r.settings.sweep h t (if r.json then .json else .lines c.color) s =
      j.sweepAs h t s (r.format c.color) :=
    Settings.sweep_unlimited hj h t (r.format c.color) hs
  unfold perform
  simp only
  rw [hsweep]
  exact ⟨rfl, rfl, rfl⟩

/-- A fault of the command line, of a variable or of the settings ends the program before it touches
a file, and so does a question. Otherwise the exit code is 0. What is written, as lines or as JSON,
and what is left behind are those of one run, with an entry for each file of the survey, and what is
written tells of those entries. -/
theorem run_exit (c : Call) (h : Host) (t : Tree) (s : Sink) (hs : s.room = none) :
    (∀ e, CommandLine.parse c.arguments c.environment = .error (.error e) →
      (run c h t s).Leaves 2 s t) ∧
    (∀ q, CommandLine.parse c.arguments c.environment = .error (.question q) →
      (run c h t s).Leaves 0 (s.took (shown c.usageColor (q.answer c.environment))) t) ∧
    ∀ r, CommandLine.parse c.arguments c.environment = .ok r →
      (r.Faulty → (run c h t s).Leaves 1 s t) ∧
      (¬ r.Faulty → ∃ j : Job, j.settings = r.settings ∧
        (j.course h t).entries.map Entry.path = j.files h t ∧
        (∀ format : Format, format.Tells r.dryRun (j.course h t).entries
          (j.written (j.course h t).entries format)) ∧
        (run c h t s).Leaves 0 (s.took (j.written (j.course h t).entries (r.format c.color)))
          (j.course h t).tree ∧
        ∀ c' r', CommandLine.parse c'.arguments c'.environment = .ok r' →
          r'.settings = r.settings →
          (run c' h t s).Leaves 0
            (s.took (j.written (j.course h t).entries (r'.format c'.color)))
            (j.course h t).tree) := by
  refine ⟨?_, ?_, ?_⟩
  · intro e he
    constructor <;> simp only [run, he]
  · intro q hq
    constructor <;> simp only [run, hq, Sink.writeText_unlimited hs]
  · intro r hr
    constructor
    · intro hfaulty
      rw [run_of_request hr]
      exact perform_faulty hfaulty
    · intro hfaulty
      obtain ⟨j, hsettings, hj⟩ :=
        Job.exists_of_not_faulty (mt CommandLine.Request.faulty_settings.mp hfaulty)
      have hdry : j.settings.dryRun = r.dryRun := congrArg Settings.dryRun hsettings
      refine ⟨j, hsettings, j.course_paths h t, ?_, ?_, ?_⟩
      · rw [← hdry]
        exact j.tells_written (j.course h t).entries
      · rw [run_of_request hr]
        exact perform_job hj hs
      · intro c' r' hr' hsame
        rw [run_of_request hr']
        exact perform_job (hsame ▸ hj) hs

/-- A file that is not UTF-8 fails, and the exit code is 0 all the same. -/
theorem run_past_failure :
    let h : Host := ⟨[], 7, 0o022⟩
    let src : Name := ⟨Utf8.ofString "src", by decide⟩
    let a : Name := ⟨Utf8.ofString "a.tsx", by decide⟩
    let b : Name := ⟨Utf8.ofString "b.tsx", by decide⟩
    let bad : Node := .file ⟨0, 0o640, [0xFF]⟩
    let good : Node := .file ⟨0, 0o640, Utf8.ofString "\"p dark:x\""⟩
    let t := ((Tree.empty.put [] src .directory).put [src] a bad).put [src] b good
    let c : Call := ⟨[], .all none, none, none⟩
    let c' : Call := ⟨[Utf8.ofString "--json"], .all none, none, none⟩
    Sink.unlimited.room = none ∧ (run c h t .unlimited).code = 0 ∧
      (run c h t .unlimited).sink = Sink.unlimited.took
        (["Error processing src/a.tsx: src/a.tsx is not valid UTF-8 text: " ++
          "invalid utf-8 sequence of 1 bytes from index 0", "Processed: src/b.tsx", "",
          "Processed 1 files out of 2 total files."].flatMap fun line => line.toList ++ ['\n']) ∧
      (run c' h t .unlimited).code = 0 ∧
      (run c' h t .unlimited).tree = (run c h t .unlimited).tree := by
  intro h src a b bad good t c c'
  let here : OpenDirectory := ⟨Path.ofString "src", [src], Tree.maxLinks⟩
  let paths := [a, b].map fun name => here.path.join name.bytes
  let r : CommandLine.Request := ⟨false, Path.ofString "src", "tsx", "dark:", false, false⟩
  have hr : CommandLine.parse c.arguments c.environment = .ok r := by decide +kernel
  have hr' : CommandLine.parse c'.arguments c'.environment = .ok { r with json := true } := by
    decide +kernel
  obtain ⟨j, hsettings, -, -, hlines, hother⟩ :=
    ((run_exit c h t .unlimited rfl).2.2 r hr).2 (by decide +kernel)
  have hjson := hother c' _ hr' rfl
  refine ⟨rfl, hlines.code_eq, ?_, hjson.code_eq, hjson.tree_eq.trans hlines.tree_eq.symm⟩
  let standard : Job := ⟨.standard, .dark, Settings.marker?_standard⟩
  obtain rfl : j = standard := Job.eq_of_settings (hsettings.trans (by decide +kernel))
  have hchildren : t.children here.place = [(a, bad), (b, good)] := by decide +kernel
  have henter : h.enter? t Settings.standard.root = some here := rfl
  have hwalk : t.walk here [] =
      [a, b].map fun name => .file (here.path.join name.bytes) name := by
    rw [Tree.walk_eq, hchildren]
    rfl
  have hfiles : standard.files h t = paths := by
    refine Host.survey_files_of_walk henter hwalk ?_
    decide +kernel
  let failed : Entry := ⟨Path.ofString "src/a.tsx", .failed
    ("src/a.tsx is not valid UTF-8 text: " ++ "invalid utf-8 sequence of 1 bytes from index 0")⟩
  let processed : Entry := ⟨Path.ofString "src/b.tsx", .processed 1⟩
  have hentries : (standard.course h t).entries = [failed, processed] := by
    rw [(standard.course_eq h t).2.1, hfiles]
    decide +kernel
  have hfailed : Console.line ⟨false, false⟩ failed =
      "Error processing src/a.tsx: src/a.tsx is not valid UTF-8 text: " ++
        "invalid utf-8 sequence of 1 bytes from index 0" := by decide +kernel
  have hprocessed : Console.line ⟨false, false⟩ processed = "Processed: src/b.tsx" := by
    decide +kernel
  have htally : (Tally.ofEntries [failed, processed]).line =
      "Processed 1 files out of 2 total files." := by decide +kernel
  have hwritten : standard.written [failed, processed] (r.format c.color) =
      Console.transcript ⟨false, false⟩ [failed, processed] := rfl
  rw [hlines.sink_eq, hentries, hwritten, ← hfailed, ← hprocessed, ← htally]
  simp [Console.transcript, Console.lines]

end Program

end MarkerSweep
