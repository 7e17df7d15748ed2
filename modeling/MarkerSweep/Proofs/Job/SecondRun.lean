import MarkerSweep.Proofs.Job.DryRun
import MarkerSweep.Proofs.Storage.Answer
import MarkerSweep.Proofs.Walk.Stable

/-!
# Second runs

A run leaves nothing to do for another one: `second_run_idle`. What it has swept is swept, and what
it could not read or write cannot be read or written now either, since a run does not touch the
outline of the tree.
-/

namespace MarkerSweep

open Text

namespace Host

variable {h : Host} {m : Marker} {t t' : Tree} {p : Path} {n : Nat} {behind : List Entry}

/-- Sweeping the file at `p` leaves the tree as it is. -/
def IsIdle (h : Host) (m : Marker) (t : Tree) (p : Path) : Prop :=
  ∃ outcome, outcome.isProcessed = false ∧ h.process m false t p = (outcome, t)

/-- A write that failed in a tree of the same outline fails again, and leaves nothing behind. -/
theorem process_unwritten_again (hi : h.Inhabits t') (hfree : h.NoTempNames t')
    (ho : t.SameOutline t') {text : List Char} (hread : h.readText t' p = .ok text)
    (hs : m.strip text ≠ text) {e : FileError} {data : Bytes}
    (hw : (h.writeAtomic t p data).1 = .error e) : h.IsIdle m t' p := by
  have hagain := ho.writeAtomic_error hw (Utf8.encode (m.strip text))
  rcases writeAtomic_spec hi (fun _ _ => hfree.not_look) (Utf8.encode (m.strip text)) with
    ⟨e', he⟩ | ⟨place, f, left, hdone, -, -⟩
  · exact ⟨_, rfl, process_of_unwritten hread hs he⟩
  · rw [hdone] at hagain
    cases hagain

theorem Effect.readText_written (hr : h.Effect m t (⟨p, .processed n⟩ :: behind) t')
    {text : List Char} (hread : h.readText t p = .ok text) :
    h.readText t' p = .ok (m.strip text) := by
  obtain ⟨place, f, hl, hd⟩ := exists_look_of_readText hread
  obtain ⟨text', f', hd', -, -, hf', hdata⟩ := hr.swept place f (get?_of_look hl) _
    List.mem_cons_self ((finds_eq_true hl).mpr rfl) n rfl
  obtain rfl := Except.ok.inj (hd.symm.trans hd')
  apply readText_of_look (hr.outline.look hl hf')
  rw [hdata, Utf8.decode_encode]

/-- Behind a run that begins with the file at `p`, there is nothing to do for that file. -/
theorem Effect.isIdle (hplain : ∀ c ∈ m.text.toList, isDelimiter c = false)
    (hi : h.Inhabits t) (hfree : h.NoTempNames t)
    (hr : h.Effect m t (⟨p, (h.process m false t p).1⟩ :: behind) t') : h.IsIdle m t' p := by
  have hi' : h.Inhabits t' := hr.outline.inhabits hi
  have hfree' : h.NoTempNames t' := hfree.of_sameOutline hr.outline
  cases hread : h.readText t p with
  | error e => exact ⟨_, rfl, process_of_error (hr.readText_error hread) m false⟩
  | ok text =>
    rcases hr.readText_ok hread with hnow | ⟨hnow, -, -⟩
    · by_cases hs : m.strip text = text
      · exact ⟨_, rfl, process_of_strip_eq hnow hs false⟩
      · -- The file is as it was, so this run did not write it.
        cases hw : h.writeAtomic t p (Utf8.encode (m.strip text)) with
        | mk written left =>
          cases written with
          | ok _ =>
            rw [process_of_written hread hs hw] at hr
            exact absurd (Except.ok.inj ((hr.readText_written hread).symm.trans hnow)) hs
          | error e =>
            exact process_unwritten_again hi' hfree' hr.outline hnow hs (congrArg Prod.fst hw)
    · exact ⟨_, rfl, process_of_strip_eq hnow (m.strip_strip hplain text) false⟩

end Host

/-! ### Runs -/

/-- The run processed no file, and left the tree as it was. -/
def Run.IsIdle {σ ε : Type} (run : Run σ ε) (t : Tree) : Prop :=
  (∀ e ∈ run.entries, e.outcome.isProcessed = false) ∧ run.tree = t

namespace Job

variable {σ ε σ' ε' : Type} {h : Host} {t : Tree} {paths : List Path} {p : Path}

theorem isIdle_of_course (j : Job) (hreal : j.settings.dryRun = false)
    (hplain : ∀ c ∈ j.marker.text.toList, isDelimiter c = false) (hi : h.Inhabits t)
    (hfree : h.NoTempNames t) (hp : p ∈ paths) :
    h.IsIdle j.marker (j.treeAfter h t paths) p := by
  induction paths generalizing t with
  | nil => cases hp
  | cons first rest ih =>
    have hr := j.effect_of_course hreal hplain hi hfree (first :: rest)
    unfold entriesOver at hr
    rw [hreal] at hr
    rcases List.mem_cons.mp hp with rfl | hp
    · exact hr.isIdle hplain hi hfree
    · have ho := (Host.process_sweeps hi hfree j.marker first).sameOutline
      have hrest := ih (ho.inhabits hi) (hfree.of_sameOutline ho) hp
      rw [← hreal] at hrest
      exact hrest

/-- A run over files that there is nothing to do for does nothing, wherever its listener stops
it. -/
theorem runOver_of_isIdle (j : Job) (hreal : j.settings.dryRun = false)
    (hidle : ∀ p ∈ paths, h.IsIdle j.marker t p) (l : Listener σ ε) (s : σ) :
    (j.runOver h l t s paths).IsIdle t := by
  induction paths generalizing s with
  | nil => exact ⟨fun _ he => absurd he List.not_mem_nil, rfl⟩
  | cons p rest ih =>
    obtain ⟨outcome, houtcome, hprocess⟩ := hidle p List.mem_cons_self
    have hrest := ih fun q hq => hidle q (List.mem_cons_of_mem _ hq)
    simp only [runOver, hreal, hprocess]
    cases l s ⟨p, outcome⟩ with
    | mk answer s' =>
      cases answer with
      | error reason =>
        refine ⟨?_, rfl⟩
        intro e he
        rw [List.mem_singleton.mp he]
        exact houtcome
      | ok _ =>
        obtain ⟨hentries, htree⟩ := hrest s'
        refine ⟨?_, htree⟩
        intro e he
        rcases List.mem_cons.mp he with rfl | he
        · exact houtcome
        · exact hentries e he

/-- After a run that nothing stopped, a second one goes over the same paths, processes no file, and
leaves the tree as it found it, in whatever orders the two come to the files. -/
theorem second_run_idle (j : Job) (hreal : j.settings.dryRun = false)
    (hplain : ∀ c ∈ j.marker.text.toList, isDelimiter c = false) (hi : h.Inhabits t)
    (hfree : h.NoTempNames t) (hpaths : paths.Perm (j.files h t)) (l : Listener σ ε) (s : σ)
    (hdone : (j.runOver h l t s paths).refusal = none) (l' : Listener σ' ε') (s' : σ') :
    let left := (j.runOver h l t s paths).tree
    (j.files h left).Perm (j.files h t) ∧ (j.run h left l' s').IsIdle left ∧
      ∀ again, again.Perm (j.files h left) → (j.runOver h l' left s' again).IsIdle left := by
  intro left
  have hleft : left = j.treeAfter h t paths := (j.runOver_of_refusal_eq_none h hdone).2
  have ho : t.SameOutline left := by
    rw [hleft]
    exact (j.effect_of_course hreal hplain hi hfree _).outline
  have hfiles : (j.files h left).Perm (j.files h t) :=
    ho.survey_files_perm hi j.settings.root j.settings.extension
  have hagain {again : List Path} (hp : again.Perm (j.files h left)) :
      (j.runOver h l' left s' again).IsIdle left := by
    apply j.runOver_of_isIdle hreal
    intro p hmem
    rw [hleft]
    have hdid : p ∈ paths := hpaths.symm.subset (hfiles.subset (hp.subset hmem))
    exact j.isIdle_of_course hreal hplain hi hfree hdid
  exact ⟨hfiles, hagain (.refl _), fun again hp => hagain hp⟩

/-- The first run comes to the files backward, the second one does not. The file with the long name
cannot be written, each time; the other has been swept, through the link to it. -/
theorem second_run_after_failed_write :
    let h : Host := ⟨[], 7, 0o022⟩
    let src : Name := ⟨Utf8.ofString "src", by decide⟩
    let a : Name := ⟨Utf8.ofString "a.tsx", by decide⟩
    let b : Name := ⟨Utf8.ofString "b.tsx", by decide⟩
    let long : Name := ⟨List.replicate 250 0x63 ++ Utf8.ofString ".tsx", by decide +kernel⟩
    let file : Node := .file ⟨0, 0o640, Utf8.ofString "\"p dark:x\""⟩
    let t := (((Tree.empty.put [] src .directory).put [src] a file).put [src] b
      (.link ⟨a.bytes⟩)).put [src] long file
    let j : Job := ⟨.standard, .dark, Settings.marker?_standard⟩
    let first := j.runOver h Listener.silent t () (j.files h t).reverse
    let second := j.run h first.tree Listener.silent ()
    j.settings.dryRun = false ∧ (∀ c ∈ j.marker.text.toList, isDelimiter c = false) ∧
      h.Inhabits t ∧ h.NoTempNames t ∧ (j.files h t).reverse.Perm (j.files h t) ∧
      first.refusal = none ∧
      (∃ error, first.entries.map Entry.outcome = [.failed error, .processed 1, .unchanged]) ∧
      (j.files h first.tree).Perm (j.files h t) ∧ second.IsIdle first.tree ∧
      ∀ again, again.Perm (j.files h first.tree) →
        (j.runOver h Listener.silent first.tree () again).IsIdle first.tree := by
  intro h src a b long file t j first second
  let here : OpenDirectory := ⟨Path.ofString "src", [src], Tree.maxLinks⟩
  let paths := [a, b, long].map fun name => here.path.join name.bytes
  have hplain : ∀ c ∈ j.marker.text.toList, isDelimiter c = false := Marker.dark_plain
  have hi : h.Inhabits t := by decide +kernel
  have hfree : h.TempFree t := by decide +kernel
  have hfree : h.NoTempNames t := hfree.noTempNames
  have hdone : first.refusal = none := (j.runOver_of_takes h (fun _ _ => rfl) t () _).1
  have hperm : (j.files h t).reverse.Perm (j.files h t) := List.reverse_perm _
  refine ⟨rfl, hplain, hi, hfree, hperm, hdone, ?_,
    j.second_run_idle rfl hplain hi hfree hperm Listener.silent () hdone Listener.silent ()⟩
  have hchildren : t.children here.place = [(a, file), (b, .link ⟨a.bytes⟩), (long, file)] := by
    decide +kernel
  have henter : h.enter? t j.settings.root = some here := rfl
  have hwalk : t.walk here [] =
      [a, b, long].map fun name => .file (here.path.join name.bytes) name := by
    rw [Tree.walk_eq, hchildren]
    rfl
  have hfiles : j.files h t = paths := by
    refine Host.survey_files_of_walk henter hwalk ?_
    decide +kernel
  refine ⟨(FileError.io (h.tempPath (here.path.join long.bytes)) .nameTooLong).message, ?_⟩
  show (j.runOver h Listener.silent t () (j.files h t).reverse).entries.map _ = _
  rw [hfiles]
  decide +kernel

end Job

end MarkerSweep
