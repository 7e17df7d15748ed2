import MarkerSweep.Program
import MarkerSweep.Proofs.Job.Course
import MarkerSweep.Proofs.Settings
import MarkerSweep.Proofs.Walk.Listing
import MarkerSweep.Text.Utf8.RoundTrip

/-!
# Extensions behind full stops

An extension may be set with full stops in front of it or without. `extension_ignores_dots` says
that this makes no difference to whether there is a job and to what it does. What is behind the full
stops is never empty in a job, so every file that it comes to has an extension.
-/

namespace MarkerSweep

theorem Utf8.ofString_ne_nil {s : String} (hs : s ≠ "") : ofString s ≠ [] := by
  intro h
  have hlength := length_ofString s
  rw [h, List.length_nil] at hlength
  exact hs (String.utf8ByteSize_eq_zero_iff.mp hlength.symm)

/-! ### Full stops in names and extensions -/

namespace Path

/-- So many full stops. -/
def dots (n : Nat) : String :=
  String.ofList (List.replicate n '.')

theorem dropDots_dots_append (n : Nat) (s : String) : dropDots (dots n ++ s) = dropDots s := by
  unfold dropDots dots
  rw [String.toList_append, String.toList_ofList, List.dropWhile_append_of_pos]
  intro c hc
  rw [List.eq_of_mem_replicate hc]
  rfl

theorem exists_dots (s : String) : ∃ n, s = dots n ++ dropDots s := by
  let front := s.toList.takeWhile (· == '.')
  have hfront : front = List.replicate front.length '.' := by
    apply List.eq_replicate_of_mem
    intro c hc
    simpa using List.all_eq_true.mp List.all_takeWhile c hc
  refine ⟨front.length, String.toList_inj.mp ?_⟩
  rw [String.toList_append, dots, dropDots, String.toList_ofList, String.toList_ofList, ← hfront,
    List.takeWhile_append_dropWhile]

theorem head?_dropDots (s : String) : (dropDots s).toList.head? ≠ some '.' := by
  intro h
  have hhead := List.head?_dropWhile_not (· == '.') s.toList
  rw [dropDots, String.toList_ofList] at h
  simp [h] at hhead

theorem dot_inside_of_extension? {name tail : Bytes} (hshown : isHidden name = false)
    (h : extension? name = some tail) (htail : tail ≠ []) :
    dot ∈ name ∧ name.getLast? ≠ some dot := by
  obtain ⟨stem, rfl, hno⟩ := (extension?_eq_some_iff hshown).mp h
  refine ⟨by simp, ?_⟩
  rw [List.append_cons, List.getLast?_append_of_ne_nil _ htail]
  intro hlast
  exact hno (List.mem_of_getLast? hlast)

end Path

/-! ### Settings that differ in full stops -/

namespace Settings

variable {s s' : Settings}

/-- Settings that differ at most in how many full stops their extensions start with. -/
structure SameButDots (s s' : Settings) : Prop where
  root_eq : s.root = s'.root
  extension_eq : ∃ n n' bare,
    s.extension = Path.dots n ++ bare ∧ s'.extension = Path.dots n' ++ bare
  marker_eq : s.marker = s'.marker
  dryRun_eq : s.dryRun = s'.dryRun

theorem SameButDots.dropDots_eq (hs : s.SameButDots s') :
    Path.dropDots s.extension = Path.dropDots s'.extension := by
  obtain ⟨n, n', bare, hn, hn'⟩ := hs.extension_eq
  rw [hn, hn', Path.dropDots_dots_append, Path.dropDots_dots_append]

theorem SameButDots.marker?_eq (hs : s.SameButDots s') : s.marker? = s'.marker? := by
  unfold marker?
  rw [hs.dropDots_eq, hs.marker_eq]

theorem sameButDots_withExtension (s : Settings) (extension : String) :
    (s.withExtension extension).SameButDots { s with extension := extension } := by
  obtain ⟨n, hn⟩ := Path.exists_dots extension
  exact ⟨rfl, ⟨0, n, Path.dropDots extension, rfl, hn⟩, rfl, rfl⟩

end Settings

/-! ### What jobs do -/

namespace Job

variable {j j' : Job}

/-- Jobs that find the same files in every tree, and do the same to them, whoever listens. -/
structure SameWork (j j' : Job) : Prop where
  files_eq : ∀ h t, j.files h t = j'.files h t
  run_eq : ∀ {σ ε : Type} h t (l : Listener σ ε) s, j.run h t l s = j'.run h t l s
  report?_eq : ∀ {σ ε : Type} (run : Run σ ε), j.report? run = j'.report? run

theorem sameWork_of_sameButDots (hs : j.settings.SameButDots j'.settings) : j.SameWork j' := by
  have hmarker : j.marker = j'.marker :=
    Except.ok.inj (j.marker_eq.symm.trans (hs.marker?_eq.trans j'.marker_eq))
  -- A survey drops the full stops itself, whether or not they were dropped before.
  have hfiles (h : Host) (t : Tree) : j.files h t = j'.files h t := by
    simp only [files, survey, Host.survey, hs.root_eq, hs.dropDots_eq]
  refine ⟨hfiles, ?_, ?_⟩
  · intro σ ε h t l x
    unfold run
    rw [hfiles, runOver_congr hmarker hs.dryRun_eq]
  · intro σ ε run
    unfold report?
    rw [hs.dryRun_eq]

/-- Every file that a job comes to has an extension. -/
theorem dot_inside_of_mem_files {h : Host} {t : Tree} {p : Path} (hp : p ∈ j.files h t) :
    ∃ name, p.fileName? = some name ∧ Path.dot ∈ name ∧ name.getLast? ≠ some Path.dot := by
  obtain ⟨start, last, -, hv, hext⟩ := Host.mem_survey_files_iff.mp hp
  obtain ⟨-, here, -, -, hshows, rfl⟩ := Tree.mem_walk_iff_route.mp hv
  have hbare : Path.dropDots j.settings.extension ≠ "" := by
    intro he
    cases (Settings.marker?_eq_emptyExtension_iff.mpr he).symm.trans j.marker_eq
  exact ⟨last.bytes, here.path.fileName?_join last,
    Path.dot_inside_of_extension? hshows.shown hext (Utf8.ofString_ne_nil hbare)⟩

end Job

/-! ### Sweeps -/

/-- Sweeps that are alike but for their logs, where an extension stands as it was set. -/
structure Sweep.SameButLog (x y : Sweep) : Prop where
  result_eq : x.result = y.result
  sink_eq : x.sink = y.sink
  tree_eq : x.tree = y.tree

namespace Job

variable {j j' : Job}

theorem sweepToLines_sameButLog (hs : j.settings.SameButDots j'.settings) (h : Host) (t : Tree)
    (color : Bool) (sink : Sink) :
    (j.sweepToLines h t color sink).SameButLog (j'.sweepToLines h t color sink) := by
  have hwork := sameWork_of_sameButDots hs
  unfold sweepToLines
  simp only [hwork.run_eq, hwork.report?_eq, hs.dryRun_eq]
  generalize j'.run h t (Console.tell ⟨j'.settings.dryRun, color⟩) sink = run
  cases j'.report? run with
  | error fault => exact ⟨rfl, rfl, rfl⟩
  | ok report =>
    simp only
    cases Console.finish run.listener report.tally with
    | mk answer sink =>
      cases answer with
      | error fault => exact ⟨rfl, rfl, rfl⟩
      | ok _ => exact ⟨rfl, rfl, rfl⟩

theorem sweepToJson_sameButLog (hs : j.settings.SameButDots j'.settings) (h : Host) (t : Tree)
    (sink : Sink) : (j.sweepToJson h t sink).SameButLog (j'.sweepToJson h t sink) := by
  have hwork := sameWork_of_sameButDots hs
  unfold sweepToJson
  simp only [hwork.run_eq, hs.dryRun_eq]
  generalize (Report.mk j'.settings.dryRun
    (j'.run h t Listener.silent ()).entries).toJson.pretty = text
  cases sink.writeText text with
  | mk answer sink =>
    cases answer with
    | error fault => exact ⟨rfl, rfl, rfl⟩
    | ok _ =>
      simp only
      cases sink.writeText ['\n'] with
      | mk answer sink =>
        cases answer with
        | error fault => exact ⟨rfl, rfl, rfl⟩
        | ok _ => exact ⟨rfl, rfl, rfl⟩

end Job

namespace Settings

variable {s s' : Settings}

/-- Settings that are refused for the same fault, or make jobs that do the same. -/
def SameOutcome (s s' : Settings) : Prop :=
  (∃ fault, Job.ofSettings? s = .error fault ∧ Job.ofSettings? s' = .error fault) ∨
    ∃ j j', Job.ofSettings? s = .ok j ∧ Job.ofSettings? s' = .ok j' ∧ j.settings = s ∧
      j'.settings = s' ∧ j.SameWork j'

theorem SameButDots.sameOutcome (hs : s.SameButDots s') : s.SameOutcome s' := by
  cases hm : s.marker? with
  | error fault =>
    have hm' : s'.marker? = .error fault := hs.marker?_eq.symm.trans hm
    exact .inl ⟨fault, Job.ofSettings?_eq_error hm, Job.ofSettings?_eq_error hm'⟩
  | ok m =>
    have hm' : s'.marker? = .ok m := hs.marker?_eq.symm.trans hm
    exact .inr ⟨_, _, Job.ofSettings?_eq_ok hm, Job.ofSettings?_eq_ok hm', rfl, rfl,
      Job.sameWork_of_sameButDots hs⟩

theorem SameButDots.sweep (hs : s.SameButDots s') (h : Host) (t : Tree) (format : Format)
    (sink : Sink) : (s.sweep h t format sink).SameButLog (s'.sweep h t format sink) := by
  unfold Settings.sweep
  rcases hs.sameOutcome with ⟨fault, he, he'⟩ | ⟨j, j', hj, hj', rfl, rfl, -⟩
  · rw [he, he']
    exact ⟨rfl, rfl, rfl⟩
  · rw [hj, hj']
    cases format with
    | lines color => exact Job.sweepToLines_sameButLog hs h t color sink
    | json => exact Job.sweepToJson_sameButLog hs h t sink

/-- How many full stops an extension starts with makes no difference. Settings are judged by what is
behind them, and by that before the marker; `withExtension` changes only the full stops. Settings
that differ in nothing else are refused for the same fault, or make jobs that find the same files
and do the same to them. No job comes to a file whose name has no full stop, or ends in one. -/
theorem extension_ignores_dots (s : Settings) :
    let bare := Path.dropDots s.extension
    ((∃ n, s.extension = Path.dots n ++ bare) ∧ bare.toList.head? ≠ some '.') ∧
    ((∃ j, Job.ofSettings? s = .ok j) ↔
      bare ≠ "" ∧ s.marker ≠ "" ∧ s.marker.utf8ByteSize ≤ Marker.maxLength) ∧
    (Job.ofSettings? s = .error .emptyExtension ↔ bare = "") ∧
    (∀ extension, (s.withExtension extension).SameButDots { s with extension := extension }) ∧
    (∀ s', s.SameButDots s' → s.SameOutcome s' ∧
      ∀ h t format sink, (s.sweep h t format sink).SameButLog (s'.sweep h t format sink)) ∧
    ∀ j, Job.ofSettings? s = .ok j → ∀ h t,
      (∀ {σ ε : Type} (l : Listener σ ε) (x : σ),
        (j.run h t l x).entries.map Entry.path <+: j.files h t) ∧
      ∀ p ∈ j.files h t, ∃ name, p.fileName? = some name ∧ Path.dot ∈ name ∧
        name.getLast? ≠ some Path.dot := by
  intro bare
  refine ⟨⟨Path.exists_dots s.extension, Path.head?_dropDots s.extension⟩,
    Job.exists_ofSettings?_iff.trans not_faulty_iff, ?_, s.sameButDots_withExtension,
    fun s' hs => ⟨hs.sameOutcome, hs.sweep⟩, ?_⟩
  · rw [Job.ofSettings?_eq_error_iff]
    exact marker?_eq_emptyExtension_iff
  · intro j _ h t
    refine ⟨fun l x => j.runOver_paths_prefix h l t x (j.files h t), ?_⟩
    intro p hp
    exact Job.dot_inside_of_mem_files hp

/-- With two full stops before the extension and with none, the same one of three files is swept. -/
theorem extension_behind_two_dots :
    let h : Host := ⟨[], 7, 0o022⟩
    let src : Name := ⟨Utf8.ofString "src", by decide⟩
    let a : Name := ⟨Utf8.ofString "a.tsx", by decide⟩
    let plain : Name := ⟨Utf8.ofString "tsx", by decide⟩
    let ended : Name := ⟨Utf8.ofString "a.", by decide⟩
    let file : Node := .file ⟨0, 0o640, Utf8.ofString "\"p dark:x\""⟩
    let t := (((Tree.empty.put [] src .directory).put [src] plain file).put [src] a file).put [src]
      ended file
    let s : Settings := { standard with extension := "..tsx" }
    let p := Path.ofString "src/a.tsx"
    s.SameButDots standard ∧
      (∃ j j', Job.ofSettings? s = .ok j ∧ Job.ofSettings? standard = .ok j' ∧ j.SameWork j' ∧
        j.settings.extension = "..tsx" ∧ j'.settings.extension = "tsx" ∧ j.files h t = [p] ∧
        (j'.run h t Listener.silent ()).entries = [⟨p, .processed 1⟩] ∧
        ∃ name, p.fileName? = some name ∧ Path.dot ∈ name ∧ name.getLast? ≠ some Path.dot) ∧
      Job.ofSettings? { standard with extension := "..", marker := "" } =
        .error .emptyExtension := by
  intro h src a plain ended file t s p
  let here : OpenDirectory := ⟨Path.ofString "src", [src], Tree.maxLinks⟩
  let visits : List Visit :=
    [plain, a, ended].map fun name => .file (here.path.join name.bytes) name
  have hdots : s.extension = Path.dots 2 ++ "tsx" := by decide +kernel
  have hs : s.SameButDots standard := ⟨rfl, ⟨2, 0, "tsx", hdots, by decide +kernel⟩, rfl, rfl⟩
  have hm : s.marker? = .ok Marker.dark := hs.marker?_eq.trans marker?_standard
  obtain ⟨-, -, -, -, houtcome, hnames⟩ := extension_ignores_dots s
  have hempty := (extension_ignores_dots { standard with extension := "..", marker := "" }).2.2.1
  refine ⟨hs, ?_, hempty.mpr (by decide +kernel)⟩
  obtain ⟨fault, he, -⟩ | ⟨j, j', hj, hj', -, -, hwork⟩ := (houtcome standard hs).1
  · rw [Job.ofSettings?_eq_ok hm] at he
    cases he
  obtain rfl := Except.ok.inj ((Job.ofSettings?_eq_ok hm).symm.trans hj)
  obtain rfl := Except.ok.inj ((Job.ofSettings?_eq_ok marker?_standard).symm.trans hj')
  have hchildren : t.children here.place = [(plain, file), (a, file), (ended, file)] := by
    decide +kernel
  have henter : h.enter? t s.root = some here := rfl
  have hwalk : t.walk here [] = visits := by
    rw [Tree.walk_eq, hchildren]
    rfl
  have hfound :
      visits.filterMap (Visit.fileWith? (Utf8.ofString (Path.dropDots "..tsx"))) = [p] := by
    decide +kernel
  have hfiles : Job.files ⟨s, .dark, hm⟩ h t = [p] :=
    Host.survey_files_of_walk henter hwalk hfound
  have hp : p ∈ Job.files ⟨s, .dark, hm⟩ h t := by
    rw [hfiles]
    exact List.mem_singleton_self p
  refine ⟨_, _, hj, hj', hwork, rfl, rfl, hfiles, ?_, (hnames _ hj h t).2 p hp⟩
  show (Job.runOver _ h Listener.silent t () (Job.files _ h t)).entries = _
  rw [← hwork.files_eq, hfiles]
  decide +kernel

end Settings

end MarkerSweep
