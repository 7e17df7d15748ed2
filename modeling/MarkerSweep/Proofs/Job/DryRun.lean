import MarkerSweep.Proofs.Job.Course
import MarkerSweep.Proofs.Job.Effect

/-!
# Dry runs

A dry run leaves the tree as it is. `dry_run_foretells` says how its entries compare with those of a
real run over the same tree, in which files change under the paths that are still to come.
-/

namespace MarkerSweep

open Text

theorem Outcome.isProcessed_iff {outcome : Outcome} :
    outcome.isProcessed = true ↔ ∃ n, outcome = .processed n := by
  cases outcome <;> simp [isProcessed]

/-- The same job, as a dry run or as a real one. -/
def Job.withDryRun (j : Job) (dryRun : Bool) : Job :=
  ⟨{ j.settings with dryRun := dryRun }, j.marker, j.marker_eq⟩

/-- How the outcomes of one file in a dry run over `t` and in a real run go together. The real run
has made the entries `before`, which brought it to the tree `now`. -/
inductive Host.Foretells (h : Host) (m : Marker) (t : Tree) (before : List Entry) (now : Tree)
    (p : Path) : Outcome → Outcome → Prop where
  | same (outcome : Outcome) : Foretells h m t before now p outcome outcome
  /-- The file has been processed, through a path that came before. -/
  | done {n : Nat} {place : Location} {e : Entry} (he : e ∈ before)
      (hprocessed : e.outcome.isProcessed = true) (hfirst : h.finds t e.path place = true)
      (hfinds : h.finds t p place = true) : Foretells h m t before now p (.processed n) .unchanged
  /-- The file cannot be written. -/
  | unwritten {n : Nat} {text : List Char} {e : FileError} {left : Tree}
      (hread : h.readText now p = .ok text)
      (hwrite : h.writeAtomic now p (Utf8.encode (m.strip text)) = (.error e, left)) :
      Foretells h m t before now p (.processed n) (.failed e.message)

/-- A dry run of the job over these paths, and what it says of a real run over them. -/
structure Job.Foretold {σ ε σ' ε' : Type} (j : Job) (h : Host) (t : Tree) (paths : List Path)
    (dry : Run σ ε) (real : Run σ' ε') : Prop where
  tree_eq : dry.tree = t
  dry_refusal : dry.refusal = none
  real_refusal : real.refusal = none
  dry_paths : dry.entries.map Entry.path = paths
  real_paths : real.entries.map Entry.path = paths
  outcomes : ∀ before e behind, real.entries = before ++ e :: behind →
    ∃ outcome, dry.entries[before.length]? = some ⟨e.path, outcome⟩ ∧
      h.Foretells j.marker t before
        ((j.withDryRun false).treeAfter h t (before.map Entry.path)) e.path outcome e.outcome

namespace Host

variable {h : Host} {m : Marker} {t now : Tree} {p : Path} {text : List Char}
  {before : List Entry}

/-! ### One file -/

theorem process_dry_tree (h : Host) (m : Marker) (t : Tree) (p : Path) :
    (h.process m true t p).2 = t := by
  cases hread : h.readText t p with
  | error e => rw [process_of_error hread]
  | ok text =>
    by_cases hs : m.strip text = text
    · rw [process_of_strip_eq hread hs]
    · rw [process_dry_of_strip_ne hread hs]

theorem Effect.readText_error (hr : h.Effect m t before now) {e : FileError}
    (hread : h.readText t p = .error e) : h.readText now p = .error e := by
  unfold readText readFile at hread ⊢
  cases hl : h.look t true p with
  | error fault =>
    rw [hl] at hread
    rw [hr.outline.look_error hl]
    exact hread
  | ok found =>
    obtain ⟨place, node⟩ := found
    have hn : t.get? place = some node := get?_of_look hl
    rw [hl] at hread
    cases node with
    | directory =>
      rw [hr.outline.look hl (hr.outline.carries _ _ hn (by simp))]
      exact hread
    | link target =>
      rw [hr.outline.look hl (hr.outline.carries _ _ hn (by simp))]
      exact hread
    | file f =>
      simp only at hread
      cases hd : Utf8.decode f.data with
      | ok text => rw [hd] at hread; cases hread
      | error fault =>
        rw [hr.outline.look hl (hr.undecoded place f fault hn hd).1]
        exact hread

/-- A file is read as before, or it has been processed and is read as its swept text. -/
theorem Effect.readText_ok (hr : h.Effect m t before now) (hread : h.readText t p = .ok text) :
    h.readText now p = .ok text ∨
      h.readText now p = .ok (m.strip text) ∧ m.strip text ≠ text ∧
        ∃ place, ∃ e ∈ before, e.outcome.isProcessed = true ∧ h.finds t e.path place = true ∧
          h.finds t p place = true := by
  obtain ⟨place, f, hl, hd⟩ := exists_look_of_readText hread
  have hf : t.get? place = some (.file f) := get?_of_look hl
  by_cases hdone : ∃ e ∈ before, h.finds t e.path place = true ∧ e.outcome.isProcessed = true
  · obtain ⟨e, he, hfirst, hprocessed⟩ := hdone
    obtain ⟨n, hn⟩ := Outcome.isProcessed_iff.mp hprocessed
    obtain ⟨text', f', hd', hs, -, hf', hdata⟩ := hr.swept place f hf e he hfirst n hn
    obtain rfl : text = text' := Except.ok.inj (hd.symm.trans hd')
    refine .inr ⟨?_, hs, place, e, he, hprocessed, hfirst, (finds_eq_true hl).mpr rfl⟩
    apply readText_of_look (hr.outline.look hl hf')
    rw [hdata, Utf8.decode_encode]
  · have hkept : now.get? place = some (.file f) := by
      apply hr.kept place f hf
      intro e he hfirst
      rw [Bool.eq_false_iff]
      intro hprocessed
      exact hdone ⟨e, he, hfirst, hprocessed⟩
    exact .inl (readText_of_look (hr.outline.look hl hkept) hd)

theorem Effect.foretells (hr : h.Effect m t before now)
    (hplain : ∀ c ∈ m.text.toList, isDelimiter c = false) (p : Path) :
    h.Foretells m t before now p (h.process m true t p).1 (h.process m false now p).1 := by
  cases hread : h.readText t p with
  | error e =>
    rw [process_of_error hread, process_of_error (hr.readText_error hread)]
    exact .same _
  | ok text =>
    rcases hr.readText_ok hread with hnow | ⟨hnow, hs, place, e, he, hprocessed, hfirst, hfinds⟩
    · by_cases hs : m.strip text = text
      · rw [process_of_strip_eq hread hs, process_of_strip_eq hnow hs]
        exact .same _
      · rw [process_dry_of_strip_ne hread hs]
        cases hw : h.writeAtomic now p (Utf8.encode (m.strip text)) with
        | mk written left =>
          cases written with
          | ok _ =>
            rw [process_of_written hnow hs hw]
            exact .same _
          | error e =>
            rw [process_of_unwritten hnow hs hw]
            exact .unwritten hnow hw
    · rw [process_dry_of_strip_ne hread hs, process_of_strip_eq hnow (m.strip_strip hplain text)]
      exact .done he hprocessed hfirst hfinds

end Host

/-! ### Runs -/

namespace Job

variable {σ ε σ' ε' : Type} {h : Host} {t : Tree}

theorem effect_of_course (j : Job) (hreal : j.settings.dryRun = false)
    (hplain : ∀ c ∈ j.marker.text.toList, isDelimiter c = false) (hi : h.Inhabits t)
    (hfree : h.NoTempNames t) (paths : List Path) :
    h.Effect j.marker t (j.entriesOver h t paths) (j.treeAfter h t paths) := by
  have hl : ∀ s e, (Listener.silent s e).1 = .ok () := fun _ _ => rfl
  obtain ⟨-, hentries, htree⟩ := j.runOver_of_takes h hl t () paths
  rw [← hentries, ← htree]
  exact (j.runOver_completes hreal hplain hl hi hfree () paths).effect

theorem treeAfter_dry (j : Job) (hdry : j.settings.dryRun = true) (h : Host) (t : Tree)
    (paths : List Path) : j.treeAfter h t paths = t := by
  induction paths with
  | nil => rfl
  | cons p rest ih =>
    unfold treeAfter at ih ⊢
    rw [List.foldl_cons, hdry, Host.process_dry_tree]
    rwa [hdry] at ih

theorem entriesOver_dry (j : Job) (hdry : j.settings.dryRun = true) (h : Host) (t : Tree)
    (paths : List Path) :
    j.entriesOver h t paths = paths.map fun p => ⟨p, (h.process j.marker true t p).1⟩ := by
  induction paths with
  | nil => rfl
  | cons p rest ih => rw [entriesOver, hdry, Host.process_dry_tree, ih, List.map_cons]

theorem runOver_entries_dry (j : Job) (hdry : j.settings.dryRun = true) {l : Listener σ ε}
    (hl : ∀ s e, (l s e).1 = .ok ()) (s : σ) (paths : List Path) :
    (j.runOver h l t s paths).entries =
      paths.map fun p => ⟨p, (h.process j.marker true t p).1⟩ :=
  (j.runOver_of_takes h hl t s paths).2.1.trans (j.entriesOver_dry hdry h t paths)

theorem foretold_over (j : Job) (hplain : ∀ c ∈ j.marker.text.toList, isDelimiter c = false)
    {l : Listener σ ε} (hl : ∀ s e, (l s e).1 = .ok ()) {l' : Listener σ' ε'}
    (hl' : ∀ s e, (l' s e).1 = .ok ()) (hi : h.Inhabits t) (hfree : h.NoTempNames t) (s : σ)
    (s' : σ') (paths : List Path) :
    j.Foretold h t paths ((j.withDryRun true).runOver h l t s paths)
      ((j.withDryRun false).runOver h l' t s' paths) := by
  obtain ⟨hdry, -, hdryTree⟩ := (j.withDryRun true).runOver_of_takes h hl t s paths
  have hdryEntries : ((j.withDryRun true).runOver h l t s paths).entries = _ :=
    runOver_entries_dry _ rfl hl s paths
  obtain ⟨hreal, hrealEntries, -⟩ := (j.withDryRun false).runOver_of_takes h hl' t s' paths
  constructor
  · exact hdryTree.trans (treeAfter_dry _ rfl h t _)
  · exact hdry
  · exact hreal
  · rw [hdryEntries, List.map_map]
    exact List.map_id paths
  · rw [hrealEntries, entriesOver_map_path]
  · intro before e behind hcut
    rw [hrealEntries] at hcut
    obtain ⟨hbefore, houtcome⟩ := eq_of_entriesOver _ hcut
    have heffect := (j.withDryRun false).effect_of_course rfl hplain hi hfree
      (before.map Entry.path)
    rw [← hbefore] at heffect
    refine ⟨(h.process j.marker true t e.path).1, ?_, ?_⟩
    · have hpaths := (j.withDryRun false).entriesOver_map_path h t paths
      rw [hcut, List.map_append, List.map_cons] at hpaths
      rw [hdryEntries, ← hpaths]
      simp [withDryRun]
    · rw [houtcome]
      exact heffect.foretells hplain e.path

/-- A dry run leaves the tree as it is, and goes over the same paths as a real run. Each of its
outcomes is that of the real run, unless the file would be processed and either has been, through a
path that came before, or cannot be written. It is so in whatever order the two come to the files.
The entries of the dry run are the same in each order. -/
theorem dry_run_foretells (j : Job) (hplain : ∀ c ∈ j.marker.text.toList, isDelimiter c = false)
    {l : Listener σ ε} (hl : ∀ s e, (l s e).1 = .ok ()) {l' : Listener σ' ε'}
    (hl' : ∀ s e, (l' s e).1 = .ok ()) (hi : h.Inhabits t) (hfree : h.NoTempNames t) (s : σ)
    (s' : σ') :
    j.Foretold h t (j.files h t) ((j.withDryRun true).run h t l s)
        ((j.withDryRun false).run h t l' s') ∧
      ∀ paths, j.Foretold h t paths ((j.withDryRun true).runOver h l t s paths)
          ((j.withDryRun false).runOver h l' t s' paths) ∧
        (paths.Perm (j.files h t) → ((j.withDryRun true).runOver h l t s paths).entries.Perm
          ((j.withDryRun true).run h t l s).entries) := by
  have hforetold := j.foretold_over hplain hl hl' hi hfree s s'
  refine ⟨hforetold (j.files h t), fun paths => ⟨hforetold paths, fun hpaths => ?_⟩⟩
  show List.Perm _ ((j.withDryRun true).runOver h l t s (j.files h t)).entries
  rw [runOver_entries_dry _ rfl hl, runOver_entries_dry _ rfl hl]
  exact hpaths.map _

/-- The dry run cannot know that the second path leads to the file of the first, and that the third
file has too long a name for its temporary file. -/
theorem dry_run_before_failed_write :
    let h : Host := ⟨[], 7, 0o022⟩
    let src : Name := ⟨Utf8.ofString "src", by decide⟩
    let a : Name := ⟨Utf8.ofString "a.tsx", by decide⟩
    let b : Name := ⟨Utf8.ofString "b.tsx", by decide⟩
    let long : Name := ⟨List.replicate 247 0x63 ++ Utf8.ofString ".tsx", by decide +kernel⟩
    let file : Node := .file ⟨0, 0o640, Utf8.ofString "\"p dark:x\""⟩
    let t := (((Tree.empty.put [] src .directory).put [src] a file).put [src] b
      (.link ⟨a.bytes⟩)).put [src] long file
    let j : Job := ⟨.standard, .dark, Settings.marker?_standard⟩
    let dry := (j.withDryRun true).run h t Listener.silent ()
    let real := (j.withDryRun false).run h t Listener.silent ()
    let dryBackward :=
      (j.withDryRun true).runOver h Listener.silent t () (j.files h t).reverse
    let realBackward :=
      (j.withDryRun false).runOver h Listener.silent t () (j.files h t).reverse
    (∀ c ∈ j.marker.text.toList, isDelimiter c = false) ∧
      (∀ s e, (Listener.silent s e).1 = .ok ()) ∧ h.Inhabits t ∧ h.NoTempNames t ∧
      j.Foretold h t (j.files h t) dry real ∧
      j.Foretold h t (j.files h t).reverse dryBackward realBackward ∧
      dryBackward.entries.Perm dry.entries ∧
      dry.entries.map Entry.outcome = [.processed 1, .processed 1, .processed 1] ∧
      ∃ error, real.entries.map Entry.outcome = [.processed 1, .unchanged, .failed error] ∧
        realBackward.entries.map Entry.outcome = [.failed error, .processed 1, .unchanged] := by
  intro h src a b long file t j dry real dryBackward realBackward
  let here : OpenDirectory := ⟨Path.ofString "src", [src], Tree.maxLinks⟩
  let paths := [a, b, long].map fun name => here.path.join name.bytes
  have hplain : ∀ c ∈ j.marker.text.toList, isDelimiter c = false := Marker.dark_plain
  have hl : ∀ s e, (Listener.silent s e).1 = .ok () := fun _ _ => rfl
  have hi : h.Inhabits t := by decide +kernel
  have hfree : h.TempFree t := by decide +kernel
  have hfree : h.NoTempNames t := hfree.noTempNames
  have hchildren : t.children here.place = [(a, file), (b, .link ⟨a.bytes⟩), (long, file)] := by
    decide +kernel
  have henter : h.enter? t j.settings.root = some here := rfl
  have hwalk : t.walk here [] =
      [a, b, long].map fun name => .file (here.path.join name.bytes) name := by
    rw [Tree.walk_eq, hchildren]
    rfl
  have hfiles : j.files h t = paths := by
    refine Host.survey_files_of_walk henter hwalk ?_
    decide +kernel
  obtain ⟨hforetold, hany⟩ := j.dry_run_foretells hplain hl hl hi hfree () ()
  obtain ⟨hbackward, hperm⟩ := hany (j.files h t).reverse
  refine ⟨hplain, hl, hi, hfree, hforetold, hbackward, hperm (List.reverse_perm _), ?_,
    (FileError.io (h.tempPath (here.path.join long.bytes)) .nameTooLong).message, ?_, ?_⟩
  · show ((j.withDryRun true).runOver h Listener.silent t () (j.files h t)).entries.map _ = _
    rw [hfiles]
    decide +kernel
  · show ((j.withDryRun false).runOver h Listener.silent t () (j.files h t)).entries.map _ = _
    rw [hfiles]
    decide +kernel
  · show ((j.withDryRun false).runOver h Listener.silent t () (j.files h t).reverse).entries.map _ =
      _
    rw [hfiles]
    decide +kernel

end Job

end MarkerSweep
