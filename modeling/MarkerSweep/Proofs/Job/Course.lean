import MarkerSweep.Job

/-!
# The course of a run

What a run does to each file does not depend on who listens: `entriesOver` and `treeAfter` are its
course without a listener. `run_stops_at_refusal` shows that a listener hears of the files in
their order, and decides only where the run stops.
-/

namespace MarkerSweep

variable {σ ε : Type}

/-! ### Listeners -/

namespace Listener

/-- The state of a listener after it was told entries one after the other. -/
def after (l : Listener σ ε) (s : σ) (entries : List Entry) : σ :=
  entries.foldl (fun s e => (l s e).2) s

/-- Told these entries one after the other, the listener takes each of them. -/
def Takes (l : Listener σ ε) : σ → List Entry → Prop
  | _, [] => True
  | s, e :: rest => (l s e).1 = .ok () ∧ l.Takes (l s e).2 rest

/-- The listener, with a list of the entries it was told, whether it took them or not. -/
def noting (l : Listener σ ε) : Listener (List Entry × σ) ε :=
  fun told e => ((l told.2 e).1, told.1 ++ [e], (l told.2 e).2)

end Listener

/-! ### Reports -/

def Tally.count (y : Tally) : Outcome → Tally
  | .processed _ => { y with processed := y.processed + 1, total := y.total + 1 }
  | .unchanged => { y with unchanged := y.unchanged + 1, total := y.total + 1 }
  | .failed _ => { y with failed := y.failed + 1, total := y.total + 1 }

/-- The report was made by recording these entries one after the other. -/
structure Report.Covers (r : Report) (entries : List Entry) : Prop where
  recorded : r = entries.foldl Report.record (.start r.dryRun)
  counted : r.tally = entries.foldl (fun y e => y.count e.outcome) ⟨0, 0, 0, 0⟩
  entries_eq : r.entries = entries
  processed_eq : r.tally.processed = entries.countP fun e => e.outcome.isProcessed
  unchanged_eq : r.tally.unchanged = entries.countP fun e => e.outcome.isUnchanged
  failed_eq : r.tally.failed = entries.countP fun e => e.outcome.isFailed
  total_eq : r.tally.total = entries.length
  sum_eq : r.tally.processed + r.tally.unchanged + r.tally.failed = r.tally.total
  failures_eq : r.failures = entries.filter fun e => e.outcome.isFailed

namespace Report

theorem tally_record (r : Report) (e : Entry) : (r.record e).tally = r.tally.count e.outcome := by
  obtain ⟨path, outcome⟩ := e
  unfold record tally Tally.ofEntries Tally.count
  simp only [List.countP_append, List.countP_singleton, List.length_append, List.length_singleton]
  cases outcome <;> rfl

theorem foldl_record (r : Report) (entries : List Entry) :
    entries.foldl record r = ⟨r.dryRun, r.entries ++ entries⟩ := by
  induction entries generalizing r with
  | nil => simp
  | cons e rest ih =>
    rw [List.foldl_cons, ih]
    simp [record]

theorem tally_foldl_record (r : Report) (entries : List Entry) :
    (entries.foldl record r).tally = entries.foldl (fun y e => y.count e.outcome) r.tally := by
  induction entries generalizing r with
  | nil => rfl
  | cons e rest ih => rw [List.foldl_cons, List.foldl_cons, ih, tally_record]

theorem covers (dryRun : Bool) (entries : List Entry) :
    (Report.mk dryRun entries).Covers entries := by
  have hrecorded : entries.foldl record (.start dryRun) = ⟨dryRun, entries⟩ :=
    foldl_record (.start dryRun) entries
  constructor
  · exact hrecorded.symm
  · rw [← hrecorded]
    exact tally_foldl_record (.start dryRun) entries
  · rfl
  · rfl
  · rfl
  · rfl
  · rfl
  · exact (total_tally _).symm
  · rfl

end Report

/-! ### Runs -/

namespace Job

/-- What becomes of the files at these paths, one after the other. -/
def entriesOver (j : Job) (h : Host) : Tree → List Path → List Entry
  | _, [] => []
  | t, p :: rest =>
    let step := h.process j.marker j.settings.dryRun t p
    ⟨p, step.1⟩ :: j.entriesOver h step.2 rest

/-- The tree after the files at these paths were done. -/
def treeAfter (j : Job) (h : Host) (t : Tree) (paths : List Path) : Tree :=
  paths.foldl (fun t p => (h.process j.marker j.settings.dryRun t p).2) t

theorem entriesOver_map_path (j : Job) (h : Host) (t : Tree) (paths : List Path) :
    (j.entriesOver h t paths).map Entry.path = paths := by
  induction paths generalizing t with
  | nil => rfl
  | cons p rest ih => exact congrArg (List.cons p) (ih _)

theorem entriesOver_append (j : Job) (h : Host) (t : Tree) (first second : List Path) :
    j.entriesOver h t (first ++ second) =
      j.entriesOver h t first ++ j.entriesOver h (j.treeAfter h t first) second := by
  induction first generalizing t with
  | nil => rfl
  | cons p rest ih => exact congrArg (List.cons _) (ih _)

/-- Each entry of a course is what becomes of its file in the tree that those before it left. -/
theorem eq_of_entriesOver (j : Job) {h : Host} {t : Tree} {paths : List Path}
    {before behind : List Entry} {e : Entry}
    (hcut : j.entriesOver h t paths = before ++ e :: behind) :
    before = j.entriesOver h t (before.map Entry.path) ∧
      e.outcome = (h.process j.marker j.settings.dryRun
        (j.treeAfter h t (before.map Entry.path)) e.path).1 := by
  have hpaths : paths = before.map Entry.path ++ e.path :: behind.map Entry.path := by
    have hmap := congrArg (List.map Entry.path) hcut
    rwa [entriesOver_map_path, List.map_append, List.map_cons] at hmap
  rw [hpaths, entriesOver_append] at hcut
  have hlength : (j.entriesOver h t (before.map Entry.path)).length = before.length := by
    have hmap := congrArg List.length (j.entriesOver_map_path h t (before.map Entry.path))
    rwa [List.length_map, List.length_map] at hmap
  obtain ⟨hbefore, hrest⟩ := List.append_inj hcut hlength
  refine ⟨hbefore.symm, ?_⟩
  rw [← (List.cons.inj hrest).1]

theorem runOver_noting (j : Job) (h : Host) (l : Listener σ ε) (t : Tree) (s : σ)
    (told : List Entry) (paths : List Path) :
    (j.runOver h l.noting t (told, s) paths).listener =
      (told ++ (j.runOver h l t s paths).entries, (j.runOver h l t s paths).listener) := by
  induction paths generalizing t s told with
  | nil => simp [runOver]
  | cons p rest ih =>
    simp only [runOver, Listener.noting]
    cases hl : l s ⟨p, (h.process j.marker j.settings.dryRun t p).1⟩ with
    | mk answer s' =>
      cases answer with
      | error reason => rfl
      | ok _ =>
        simp only
        refine (ih _ _ _).trans ?_
        simp

/-- A run goes along its course to the end, or up to the entry that the listener refuses. -/
theorem runOver_course (j : Job) (h : Host) (l : Listener σ ε) (t : Tree) (s : σ)
    (paths : List Path) :
    (l.Takes s (j.entriesOver h t paths) ∧ (j.runOver h l t s paths).refusal = none ∧
        (j.runOver h l t s paths).entries = j.entriesOver h t paths ∧
        (j.runOver h l t s paths).tree = j.treeAfter h t paths) ∨
      ∃ before e behind reason, j.entriesOver h t paths = before ++ e :: behind ∧
        l.Takes s before ∧ (l (l.after s before) e).1 = .error reason ∧
        (j.runOver h l t s paths).refusal = some reason ∧
        (j.runOver h l t s paths).entries = before ++ [e] ∧
        (j.runOver h l t s paths).tree = j.treeAfter h t (paths.take (before.length + 1)) := by
  induction paths generalizing t s with
  | nil => exact .inl ⟨trivial, rfl, rfl, rfl⟩
  | cons p rest ih =>
    let step := h.process j.marker j.settings.dryRun t p
    cases hl : l s ⟨p, step.1⟩ with
    | mk answer s' =>
      cases answer with
      | error reason =>
        have hrun : j.runOver h l t s (p :: rest) = ⟨[⟨p, step.1⟩], some reason, step.2, s'⟩ := by
          simp only [runOver, step, hl]
        rw [hrun]
        refine .inr ⟨[], ⟨p, step.1⟩, j.entriesOver h step.2 rest, reason, rfl, trivial, ?_, rfl,
          rfl, rfl⟩
        exact congrArg Prod.fst hl
      | ok _ =>
        have hrun : j.runOver h l t s (p :: rest) =
            { j.runOver h l step.2 s' rest with
              entries := ⟨p, step.1⟩ :: (j.runOver h l step.2 s' rest).entries } := by
          simp only [runOver, step, hl]
        have htake : ∀ entries, l.Takes s' entries → l.Takes s (⟨p, step.1⟩ :: entries) := by
          intro entries htakes
          refine ⟨congrArg Prod.fst hl, ?_⟩
          rw [hl]
          exact htakes
        rw [hrun]
        rcases ih step.2 s' with
          ⟨htakes, hrefusal, hentries, htree⟩ |
            ⟨before, e, behind, reason, hall, htakes, hrefuses, hrefusal, hentries, htree⟩
        · exact .inl ⟨htake _ htakes, hrefusal, congrArg (List.cons _) hentries, htree⟩
        · refine .inr ⟨⟨p, step.1⟩ :: before, e, behind, reason, congrArg (List.cons _) hall,
            htake _ htakes, ?_, hrefusal, congrArg (List.cons _) hentries, htree⟩
          show (l (l.after (l s ⟨p, step.1⟩).2 before) e).1 = _
          rw [hl]
          exact hrefuses

/-- A run comes to its files in their order, though maybe not to the last of them. -/
theorem runOver_paths_prefix (j : Job) (h : Host) (l : Listener σ ε) (t : Tree) (s : σ)
    (paths : List Path) : (j.runOver h l t s paths).entries.map Entry.path <+: paths := by
  have hcourse : (j.runOver h l t s paths).entries <+: j.entriesOver h t paths := by
    rcases j.runOver_course h l t s paths with
      ⟨-, -, hentries, -⟩ | ⟨before, e, behind, -, hcut, -, -, -, hentries, -⟩
    · exact hentries ▸ List.prefix_rfl
    · rw [hentries, hcut]
      exact ⟨behind, by simp⟩
  have hpaths := hcourse.map Entry.path
  rwa [entriesOver_map_path] at hpaths

/-- Of its job, a run depends on the marker, and on whether it is a dry run. -/
theorem runOver_congr {j j' : Job} (hmarker : j.marker = j'.marker)
    (hdry : j.settings.dryRun = j'.settings.dryRun) (h : Host) (l : Listener σ ε) (t : Tree) (s : σ)
    (paths : List Path) : j.runOver h l t s paths = j'.runOver h l t s paths := by
  induction paths generalizing t s with
  | nil => rfl
  | cons p rest ih => simp only [runOver, hmarker, hdry, ih]

theorem runOver_of_takes (j : Job) (h : Host) {l : Listener σ ε}
    (hl : ∀ s e, (l s e).1 = .ok ()) (t : Tree) (s : σ) (paths : List Path) :
    (j.runOver h l t s paths).refusal = none ∧
      (j.runOver h l t s paths).entries = j.entriesOver h t paths ∧
      (j.runOver h l t s paths).tree = j.treeAfter h t paths := by
  rcases j.runOver_course h l t s paths with
    ⟨-, hcourse⟩ | ⟨before, e, -, reason, -, -, hrefuses, -⟩
  · exact hcourse
  · rw [hl] at hrefuses
    cases hrefuses

theorem runOver_eq_of_takes (j : Job) (h : Host) (l : Listener σ ε) {t : Tree}
    {s : σ} {paths : List Path} (hl : l.Takes s (j.entriesOver h t paths)) :
    j.runOver h l t s paths = ⟨j.entriesOver h t paths, none, j.treeAfter h t paths,
      l.after s (j.entriesOver h t paths)⟩ := by
  induction paths generalizing t s with
  | nil => rfl
  | cons p rest ih =>
    let step := h.process j.marker j.settings.dryRun t p
    obtain ⟨hfirst, hrest⟩ : (l s ⟨p, step.1⟩).1 = .ok () ∧
        l.Takes (l s ⟨p, step.1⟩).2 (j.entriesOver h step.2 rest) := hl
    have htold : l s ⟨p, step.1⟩ = (.ok (), (l s ⟨p, step.1⟩).2) := Prod.ext hfirst rfl
    unfold runOver
    simp only
    rw [htold]
    simp only
    rw [ih hrest]
    rfl

theorem runOver_of_refusal_eq_none (j : Job) (h : Host) {l : Listener σ ε} {t : Tree} {s : σ}
    {paths : List Path} (hr : (j.runOver h l t s paths).refusal = none) :
    (j.runOver h l t s paths).entries = j.entriesOver h t paths ∧
      (j.runOver h l t s paths).tree = j.treeAfter h t paths := by
  rcases j.runOver_course h l t s paths with
    ⟨-, -, hcourse⟩ | ⟨-, -, -, reason, -, -, -, hrefusal, -⟩
  · exact hcourse
  · rw [hr] at hrefusal
    cases hrefusal

/-- A listener is told of the files in the order of the survey, up to the first entry that it
refuses. Until then nothing depends on it: the entries are those of a run that nothing stops, and
the last file told of has been done, and none behind it. -/
theorem run_stops_at_refusal (j : Job) (h : Host) (t : Tree) (l : Listener σ ε) (s : σ) :
    let all := (j.run h t Listener.silent ()).entries
    let run := j.run h t l s
    all.map Entry.path = j.files h t ∧
      (j.run h t l.noting ([], s)).listener = (run.entries, run.listener) ∧
      ((l.Takes s all ∧ run.entries = all ∧ run.tree = j.treeAfter h t (j.files h t) ∧
          ∃ report, j.report? run = .ok report ∧ report.dryRun = j.settings.dryRun ∧
            report.Covers all) ∨
        ∃ before e behind reason, all = before ++ e :: behind ∧ l.Takes s before ∧
          (l (l.after s before) e).1 = .error reason ∧ run.entries = before ++ [e] ∧
          run.tree = j.treeAfter h t ((j.files h t).take (before.length + 1)) ∧
          j.report? run = .error reason) := by
  intro all run
  have hall : all = j.entriesOver h t (j.files h t) :=
    (j.runOver_of_takes h (fun _ _ => rfl) t () (j.files h t)).2.1
  refine ⟨?_, ?_, ?_⟩
  · rw [hall, entriesOver_map_path]
  · exact j.runOver_noting h l t s [] (j.files h t)
  · rw [hall]
    rcases j.runOver_course h l t s (j.files h t) with
      ⟨htakes, hrefusal, hentries, htree⟩ |
        ⟨before, e, behind, reason, hcut, htakes, hrefuses, hrefusal, hentries, htree⟩
    · have hreport : j.report? run = .ok ⟨j.settings.dryRun, run.entries⟩ := by
        have hnone : run.refusal = none := hrefusal
        simp only [report?, hnone]
      have hentries : run.entries = j.entriesOver h t (j.files h t) := hentries
      refine .inl ⟨htakes, hentries, htree, _, hreport, rfl, ?_⟩
      rw [hentries]
      exact Report.covers _ _
    · have hsome : run.refusal = some reason := hrefusal
      exact .inr ⟨before, e, behind, reason, hcut, htakes, hrefuses, hentries, htree, by
        simp only [report?, hsome]⟩

end Job

end MarkerSweep
