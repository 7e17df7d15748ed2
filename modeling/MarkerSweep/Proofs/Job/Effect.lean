import MarkerSweep.Proofs.Job.Sweeps
import MarkerSweep.Proofs.Sweep.Seam
import MarkerSweep.Proofs.Walk.Visits
import MarkerSweep.Text.Utf8.RoundTrip

/-!
# What a run does to a tree

`Effect` is what a list of entries says about the trees before and after. `run_effect` shows that a
run has the effect that its entries say, in whatever ways the paths lead to the files, and in
whatever order it comes to them.
-/

namespace MarkerSweep

open Text

/-- What entries say about the tree before they were made and the tree after. Which files their
paths lead to is seen in the tree before. -/
structure Host.Effect (h : Host) (m : Marker) (t : Tree) (entries : List Entry) (t' : Tree) :
    Prop where
  outline : t.SameOutline t'
  /-- A file that no processed entry leads to is as it was. -/
  kept : ∀ place f, t.get? place = some (.file f) →
    (∀ e ∈ entries, h.finds t e.path place = true → e.outcome.isProcessed = false) →
    t'.get? place = some (.file f)
  /-- A file that a processed entry leads to has its text without the tokens. -/
  swept : ∀ place f, t.get? place = some (.file f) →
    ∀ e ∈ entries, h.finds t e.path place = true → ∀ n, e.outcome = .processed n →
      ∃ text f', Utf8.decode f.data = .ok text ∧ m.strip text ≠ text ∧
        n = (m.sweep text).removed ∧ t'.get? place = some (.file f') ∧
        f'.data = Utf8.encode (m.strip text)
  once : ∀ place,
    entries.countP (fun e => h.finds t e.path place && e.outcome.isProcessed) ≤ 1
  /-- A file that is no text is as it was, and all that lead to it failed. -/
  undecoded : ∀ place f fault, t.get? place = some (.file f) →
    Utf8.decode f.data = .error fault →
    t'.get? place = some (.file f) ∧
      ∀ e ∈ entries, h.finds t e.path place = true → e.outcome.isFailed = true

namespace Host

variable {h : Host} {m : Marker} {t t₁ t' : Tree} {p : Path} {outcome : Outcome}
  {entries : List Entry}

theorem Effect.nil (h : Host) (m : Marker) (t : Tree) : h.Effect m t [] t where
  outline := .refl t
  kept _ _ hf _ := hf
  swept _ _ _ _ he := absurd he List.not_mem_nil
  once _ := Nat.zero_le _
  undecoded _ _ _ hf _ := ⟨hf, fun _ he => absurd he List.not_mem_nil⟩

/-- An entry that changed nothing adds nothing to the effect of those behind it. -/
theorem Effect.cons_idle (hr : h.Effect m t entries t') (hidle : outcome.isProcessed = false)
    (hfailed : ∀ place f fault, t.get? place = some (.file f) →
      Utf8.decode f.data = .error fault → h.finds t p place = true → outcome.isFailed = true) :
    h.Effect m t (⟨p, outcome⟩ :: entries) t' where
  outline := hr.outline
  kept place f hf hno := hr.kept place f hf fun e he => hno e (List.mem_cons_of_mem _ he)
  swept place f hf e he hfind n hn := by
    rcases List.mem_cons.mp he with rfl | he
    · obtain rfl : outcome = .processed n := hn
      cases hidle
    · exact hr.swept place f hf e he hfind n hn
  once place := by
    rw [List.countP_cons_of_neg (by simp [hidle])]
    exact hr.once place
  undecoded place f fault hf hd := by
    obtain ⟨hkept, hall⟩ := hr.undecoded place f fault hf hd
    refine ⟨hkept, fun e he hfind => ?_⟩
    rcases List.mem_cons.mp he with rfl | he
    · exact hfailed place f fault hf hd hfind
    · exact hall e he hfind

/-- A file that holds a swept text already is not processed again. -/
theorem Effect.not_processed (hr : h.Effect m t entries t')
    (hplain : ∀ c ∈ m.text.toList, isDelimiter c = false) {f : File} {text : List Char}
    (hf : t.get? place = some (.file f)) (hdata : f.data = Utf8.encode (m.strip text)) {e : Entry}
    (he : e ∈ entries) (hfind : h.finds t e.path place = true) :
    e.outcome.isProcessed = false := by
  cases hout : e.outcome with
  | unchanged => rfl
  | failed error => rfl
  | processed n =>
    obtain ⟨text', f', hd, hne, -⟩ := hr.swept place f hf e he hfind n hout
    rw [hdata, Utf8.decode_encode] at hd
    obtain rfl := Except.ok.inj hd
    exact absurd (m.strip_strip hplain text) hne

theorem Effect.cons_processed (hplain : ∀ c ∈ m.text.toList, isDelimiter c = false)
    {l : Location} {old new : File} {text : List Char} (hl : h.look t true p = .ok (l, .file old))
    (hd : Utf8.decode old.data = .ok text) (hs : m.strip text ≠ text)
    (hmode : new.mode = old.mode) (hdata : new.data = Utf8.encode (m.strip text))
    (hw : t.WithFile l new t₁) (hr : h.Effect m t₁ entries t') :
    h.Effect m t (⟨p, .processed (m.sweep text).removed⟩ :: entries) t' := by
  have hold : t.get? l = some (.file old) := get?_of_look hl
  have ho : t.SameOutline t₁ := hw.sameOutline hold hmode
  have hfinds (q : Path) (place : Location) : h.finds t₁ q place = h.finds t q place :=
    ho.finds_eq q place
  -- The file is processed here, and by nothing behind.
  have hnew : ∀ e ∈ entries, h.finds t₁ e.path l = true → e.outcome.isProcessed = false :=
    fun e he => hr.not_processed hplain hw.get?_place hdata he
  have hother {place : Location} {f : File} (hne : place ≠ l)
      (hf : t.get? place = some (.file f)) : t₁.get? place = some (.file f) :=
    (hw.get?_other hne).trans hf
  constructor
  · exact ho.trans hr.outline
  · intro place f hf hno
    have hne : place ≠ l := by
      intro he
      cases hno _ List.mem_cons_self ((finds_eq_true hl).mpr he)
    refine hr.kept place f (hother hne hf) fun e he hfind => ?_
    rw [hfinds] at hfind
    exact hno e (List.mem_cons_of_mem _ he) hfind
  · intro place f hf e he hfind n hn
    rcases List.mem_cons.mp he with rfl | he
    · obtain rfl := (finds_eq_true hl).mp hfind
      obtain rfl : old = f := Node.file.inj (Option.some.inj (hold.symm.trans hf))
      obtain rfl : (m.sweep text).removed = n := Outcome.processed.inj hn
      exact ⟨text, new, hd, hs, rfl, hr.kept _ new hw.get?_place hnew, hdata⟩
    · rw [← hfinds] at hfind
      have hne : place ≠ l := by
        rintro rfl
        have hidle := hnew e he hfind
        rw [hn] at hidle
        cases hidle
      exact hr.swept place f (hother hne hf) e he hfind n hn
  · intro place
    have hbehind := hr.once place
    simp only [hfinds] at hbehind
    by_cases hne : place = l
    · subst hne
      have hzero :
          entries.countP (fun e => h.finds t e.path place && e.outcome.isProcessed) = 0 := by
        rw [List.countP_eq_zero]
        intro e he hboth
        rw [Bool.and_eq_true, ← hfinds] at hboth
        rw [hnew e he hboth.1] at hboth
        cases hboth.2
      rw [List.countP_cons, hzero]
      split <;> omega
    · rw [List.countP_cons_of_neg]
      · exact hbehind
      · rw [Bool.and_eq_true, finds_eq_true hl]
        exact fun hboth => hne hboth.1
  · intro place f fault hf hfault
    have hne : place ≠ l := by
      rintro rfl
      obtain rfl : old = f := Node.file.inj (Option.some.inj (hold.symm.trans hf))
      rw [hd] at hfault
      cases hfault
    obtain ⟨hkept, hall⟩ := hr.undecoded place f fault (hother hne hf) hfault
    refine ⟨hkept, fun e he hfind => ?_⟩
    rcases List.mem_cons.mp he with rfl | he
    · exact absurd ((finds_eq_true hl).mp hfind) hne
    · rw [← hfinds] at hfind
      exact hall e he hfind

theorem Effect.cons (hplain : ∀ c ∈ m.text.toList, isDelimiter c = false)
    (hs : h.Sweeps m t p outcome t₁) (hr : h.Effect m t₁ entries t') :
    h.Effect m t (⟨p, outcome⟩ :: entries) t' := by
  cases hs with
  | failed error => exact hr.cons_idle rfl fun _ _ _ _ _ _ => rfl
  | unchanged hl hd hs =>
    refine hr.cons_idle rfl fun place f fault hf hfault hfind => ?_
    obtain rfl := (finds_eq_true hl).mp hfind
    rw [get?_of_look hl] at hf
    cases hf
    rw [hd] at hfault
    cases hfault
  | processed hl hd hs hmode hdata hw => exact .cons_processed hplain hl hd hs hmode hdata hw hr

end Host

/-- The run did all of these files, in their order, and to the tree what its entries say. -/
structure Run.Completes {σ ε : Type} (run : Run σ ε) (h : Host) (m : Marker) (t : Tree)
    (paths : List Path) : Prop where
  refusal_eq : run.refusal = none
  paths_eq : run.entries.map Entry.path = paths
  effect : h.Effect m t run.entries run.tree

namespace Job

variable {σ ε : Type} {h : Host}

theorem runOver_cons (j : Job) (h : Host) {listener : Listener σ ε}
    (hl : ∀ s e, (listener s e).1 = .ok ()) (t : Tree) (s : σ) (p : Path) (rest : List Path) :
    ∃ s', j.runOver h listener t s (p :: rest) =
      let step := h.process j.marker j.settings.dryRun t p
      let run := j.runOver h listener step.2 s' rest
      { run with entries := ⟨p, step.1⟩ :: run.entries } := by
  refine ⟨(listener s ⟨p, (h.process j.marker j.settings.dryRun t p).1⟩).2, ?_⟩
  have hok := hl s ⟨p, (h.process j.marker j.settings.dryRun t p).1⟩
  simp only [runOver]
  split
  · next he => rw [he] at hok; cases hok
  · next he => rw [he]

theorem runOver_completes (j : Job) (hreal : j.settings.dryRun = false)
    (hplain : ∀ c ∈ j.marker.text.toList, isDelimiter c = false) {listener : Listener σ ε}
    (hl : ∀ s e, (listener s e).1 = .ok ()) {t : Tree} (hi : h.Inhabits t)
    (hfree : h.NoTempNames t) (s : σ) (paths : List Path) :
    (j.runOver h listener t s paths).Completes h j.marker t paths := by
  induction paths generalizing t s with
  | nil => exact ⟨rfl, rfl, .nil h j.marker t⟩
  | cons p rest ih =>
    obtain ⟨s', hrun⟩ := j.runOver_cons h hl t s p rest
    rw [hrun, hreal]
    have hs := Host.process_sweeps hi hfree j.marker p
    have ho := hs.sameOutline
    obtain ⟨hrefusal, hpaths, heffect⟩ := ih (ho.inhabits hi) (hfree.of_sameOutline ho) s'
    exact ⟨hrefusal, congrArg (List.cons p) hpaths, heffect.cons hplain hs⟩

/-- A run with a marker that has no delimiter in it, whose listener takes every entry, does to the
tree what its entries say. So does one that comes to the files in another order, or to other
files. -/
theorem run_effect (j : Job) (hreal : j.settings.dryRun = false)
    (hplain : ∀ c ∈ j.marker.text.toList, isDelimiter c = false) {listener : Listener σ ε}
    (hl : ∀ s e, (listener s e).1 = .ok ()) {t : Tree} (hi : h.Inhabits t) (hfree : h.TempFree t)
    (s : σ) :
    (j.run h t listener s).Completes h j.marker t (j.files h t) ∧
      ∀ paths, (j.runOver h listener t s paths).Completes h j.marker t paths := by
  have hcompletes := j.runOver_completes hreal hplain hl hi hfree.noTempNames s
  exact ⟨hcompletes (j.files h t), hcompletes⟩

/-- Two paths lead to one file: it is processed through the one that comes first, and the other
finds it done. -/
theorem run_through_link :
    let h : Host := ⟨[], 7, 0o022⟩
    let src : Name := ⟨Utf8.ofString "src", by decide⟩
    let a : Name := ⟨Utf8.ofString "a.tsx", by decide⟩
    let b : Name := ⟨Utf8.ofString "b.tsx", by decide⟩
    let file : Node := .file ⟨0, 0o640, Utf8.ofString "\"p dark:x\""⟩
    let t := ((Tree.empty.put [] src .directory).put [src] a file).put [src] b (.link ⟨a.bytes⟩)
    let j : Job := ⟨.standard, .dark, Settings.marker?_standard⟩
    let run := j.run h t Listener.silent ()
    let backward := j.runOver h Listener.silent t () (j.files h t).reverse
    j.settings.dryRun = false ∧ (∀ c ∈ j.marker.text.toList, isDelimiter c = false) ∧
      (∀ s e, (Listener.silent s e).1 = .ok ()) ∧ h.Inhabits t ∧ h.TempFree t ∧
      run.Completes h j.marker t (j.files h t) ∧
      backward.Completes h j.marker t (j.files h t).reverse ∧
      run.entries = [⟨Path.ofString "src/a.tsx", .processed 1⟩,
        ⟨Path.ofString "src/b.tsx", .unchanged⟩] ∧
      backward.entries = [⟨Path.ofString "src/b.tsx", .processed 1⟩,
        ⟨Path.ofString "src/a.tsx", .unchanged⟩] := by
  intro h src a b file t j run backward
  let here : OpenDirectory := ⟨Path.ofString "src", [src], Tree.maxLinks⟩
  let visits : List Visit :=
    [.file (Path.ofString "src/a.tsx") a, .file (Path.ofString "src/b.tsx") b]
  let paths := [Path.ofString "src/a.tsx", Path.ofString "src/b.tsx"]
  have hall : j.marker.text.toList.all (fun c => !isDelimiter c) = true := by decide
  have hplain : ∀ c ∈ j.marker.text.toList, isDelimiter c = false := by
    intro c hc
    simpa using List.all_eq_true.mp hall c hc
  have hl : ∀ s e, (Listener.silent s e).1 = .ok () := fun _ _ => rfl
  have hi : h.Inhabits t := by decide
  have hfree : h.TempFree t := by decide +kernel
  have henter : h.enter? t j.settings.root = some here := rfl
  have hchildren : t.children here.place = [(a, file), (b, .link ⟨a.bytes⟩)] := by decide +kernel
  have hwalk : t.walk here [] = visits := by
    rw [Tree.walk_eq, hchildren]
    rfl
  have hfound : visits.filterMap
      (Visit.fileWith? (Utf8.ofString (Path.dropDots j.settings.extension))) = paths := by
    decide +kernel
  have hfiles : j.files h t = paths := Host.survey_files_of_walk henter hwalk hfound
  obtain ⟨hcompletes, hany⟩ := j.run_effect rfl hplain hl hi hfree ()
  refine ⟨rfl, hplain, hl, hi, hfree, hcompletes, hany (j.files h t).reverse, ?_, ?_⟩
  · show (j.runOver h Listener.silent t () (j.files h t)).entries = _
    rw [hfiles]
    decide +kernel
  · show (j.runOver h Listener.silent t () (j.files h t).reverse).entries = _
    rw [hfiles]
    decide +kernel

end Job

end MarkerSweep
