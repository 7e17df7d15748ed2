import MarkerSweep.Job
import MarkerSweep.Proofs.Storage.Replacement
import MarkerSweep.Proofs.Tree.Outline

/-!
# What becomes of one file

`process_sweeps`: where no file has a name like a temporary file, sweeping a file leaves the tree as
it was, or gives the file its swept text.
-/

namespace MarkerSweep

/-- No entry of the tree has a name as the temporary files of this process have. -/
def Host.TempFree (h : Host) (t : Tree) : Prop :=
  ∀ name dir, t.get? (name :: dir) ≠ none → ¬ h.tempSuffix <:+ name.bytes

instance (h : Host) (t : Tree) : Decidable (h.TempFree t) :=
  decidable_of_iff (∀ e ∈ t.entries, ∀ name ∈ e.place.head?, ¬ h.tempSuffix <:+ name.bytes) <| by
    have hroot : ∀ name ∈ ([] : Location).head?, ¬ h.tempSuffix <:+ name.bytes := by simp
    rw [t.forall_place_iff (P := fun l => ∀ name ∈ l.head?, ¬ h.tempSuffix <:+ name.bytes) hroot]
    simp [Host.TempFree]

/-- No entry of the tree has the name of a temporary file of this process, whatever file that would
be for. -/
def Host.NoTempNames (h : Host) (t : Tree) : Prop :=
  ∀ name dir, t.get? (name :: dir) ≠ none → ∀ file, name.bytes ≠ h.tempName file

/-- What sweeping the file at `p` comes to: an outcome, and a tree in which the file has another
text if it was processed. -/
inductive Host.Sweeps (h : Host) (m : Marker) (t : Tree) (p : Path) : Outcome → Tree → Prop where
  | failed (error : String) : Sweeps h m t p (.failed error) t
  | unchanged {place : Location} {f : File} {text : List Char}
      (hl : h.look t true p = .ok (place, .file f)) (hd : Utf8.decode f.data = .ok text)
      (hs : m.strip text = text) : Sweeps h m t p .unchanged t
  | processed {place : Location} {old new : File} {text : List Char} {t' : Tree}
      (hl : h.look t true p = .ok (place, .file old)) (hd : Utf8.decode old.data = .ok text)
      (hs : m.strip text ≠ text) (hmode : new.mode = old.mode)
      (hdata : new.data = Utf8.encode (m.strip text)) (hw : t.WithFile place new t') :
      Sweeps h m t p (.processed (m.sweep text).removed) t'

namespace Host

variable {h : Host} {m : Marker} {t t' : Tree} {p target : Path} {place : Location}
  {text : List Char} {outcome : Outcome}

theorem TempFree.noTempNames (hfree : h.TempFree t) : h.NoTempNames t := by
  intro name dir hn file hbytes
  refine hfree name dir hn ?_
  rw [hbytes]
  exact ⟨Path.dot :: file, rfl⟩

theorem NoTempNames.not_look (hfree : h.NoTempNames t) (at_ : Location × Node) :
    h.look t false (h.tempPath target) ≠ .ok at_ := by
  intro hl
  obtain ⟨place, node⟩ := at_
  have hn : t.get? place = some node := get?_of_look hl
  obtain ⟨spare, hr⟩ := look_eq_ok_iff.mp hl
  obtain ⟨name, dir, hplace, hbytes⟩ := place_of_tempPath hr
  obtain rfl : place = name :: dir := hplace
  exact hfree name dir (by simp [hn]) _ hbytes

theorem NoTempNames.of_sameOutline (hfree : h.NoTempNames t) (ho : t.SameOutline t') :
    h.NoTempNames t' :=
  fun name dir hn => hfree name dir (ho.symm.get?_ne_none hn)

theorem exists_look_of_readText (hr : h.readText t p = .ok text) :
    ∃ place f, h.look t true p = .ok (place, .file f) ∧ Utf8.decode f.data = .ok text := by
  unfold readText at hr
  cases hf : h.readFile t p with
  | error e => rw [hf] at hr; cases hr
  | ok data =>
    simp only [hf] at hr
    cases hd : Utf8.decode data with
    | error fault => rw [hd] at hr; cases hr
    | ok text' =>
      simp only [hd] at hr
      cases hr
      unfold readFile at hf
      split at hf
      · next place f hl => cases hf; exact ⟨place, f, hl, hd⟩
      · cases hf
      · cases hf
      · cases hf

theorem readText_of_look {place : Location} {f : File}
    (hl : h.look t true p = .ok (place, .file f)) (hd : Utf8.decode f.data = .ok text) :
    h.readText t p = .ok text := by
  unfold readText readFile
  rw [hl]
  simp only [hd]

theorem process_of_error {e : FileError} (hread : h.readText t p = .error e) (m : Marker)
    (dryRun : Bool) : h.process m dryRun t p = (.failed e.message, t) := by
  simp only [process, hread]

theorem process_of_strip_eq (hread : h.readText t p = .ok text) (hs : m.strip text = text)
    (dryRun : Bool) : h.process m dryRun t p = (.unchanged, t) := by
  simp only [process, hread]
  exact if_pos hs

theorem process_dry_of_strip_ne (hread : h.readText t p = .ok text) (hs : m.strip text ≠ text) :
    h.process m true t p = (.processed (m.sweep text).removed, t) := by
  simp only [process, hread]
  exact if_neg hs

theorem process_of_written {left : Tree} (hread : h.readText t p = .ok text)
    (hs : m.strip text ≠ text)
    (hw : h.writeAtomic t p (Utf8.encode (m.strip text)) = (.ok (), left)) :
    h.process m false t p = (.processed (m.sweep text).removed, left) := by
  have hw : h.writeAtomic t p (Utf8.encode (m.sweep text).text) = (.ok (), left) := hw
  simp only [process, hread, hw]
  exact if_neg hs

theorem process_of_unwritten {e : FileError} {left : Tree} (hread : h.readText t p = .ok text)
    (hs : m.strip text ≠ text)
    (hw : h.writeAtomic t p (Utf8.encode (m.strip text)) = (.error e, left)) :
    h.process m false t p = (.failed e.message, left) := by
  have hw : h.writeAtomic t p (Utf8.encode (m.sweep text).text) = (.error e, left) := hw
  simp only [process, hread, hw]
  exact if_neg hs

theorem Writes.place_eq {data : Bytes} {f : File} {l : Location} {node : Node}
    (hw : h.Writes t p data place f t') (hl : h.look t true p = .ok (l, node)) : place = l := by
  obtain ⟨found, hr, rfl⟩ := hw.leads
  obtain ⟨spare, hr'⟩ := look_eq_ok_iff.mp hl
  obtain rfl := Except.ok.inj (hr.symm.trans hr')
  rfl

/-- What processing a file does outside a dry run, where nothing has its temporary name. -/
theorem process_sweeps_of_nothing (hi : h.Inhabits t)
    (hfree : ∀ target, h.writeTarget t p = .ok target →
      ∀ at_, h.look t false (h.tempPath target) ≠ .ok at_) (m : Marker) :
    h.Sweeps m t p (h.process m false t p).1 (h.process m false t p).2 := by
  cases hread : h.readText t p with
  | error e =>
    rw [process_of_error hread]
    exact .failed _
  | ok text =>
    obtain ⟨place, old, hl, hd⟩ := exists_look_of_readText hread
    by_cases hs : m.strip text = text
    · rw [process_of_strip_eq hread hs]
      exact .unchanged hl hd hs
    · rcases writeAtomic_spec hi hfree (Utf8.encode (m.strip text)) with
        ⟨e, he⟩ | ⟨place', f, t', hdone, hw, -⟩
      · rw [process_of_unwritten hread hs he]
        exact .failed _
      · rw [process_of_written hread hs hdone]
        obtain rfl := hw.place_eq hl
        have hmode := hw.mode_eq
        rw [Tree.modeAt?, get?_of_look hl] at hmode
        exact .processed hl hd hs hmode hw.data_eq hw.withFile

theorem process_sweeps (hi : h.Inhabits t) (hfree : h.NoTempNames t) (m : Marker) (p : Path) :
    h.Sweeps m t p (h.process m false t p).1 (h.process m false t p).2 :=
  process_sweeps_of_nothing hi (fun _ _ => hfree.not_look) m

theorem Sweeps.sameOutline (hs : h.Sweeps m t p outcome t') : t.SameOutline t' := by
  cases hs with
  | failed error => exact .refl t
  | unchanged _ _ _ => exact .refl t
  | processed hl _ _ hmode _ hw => exact hw.sameOutline (get?_of_look hl) hmode

end Host

end MarkerSweep
