import MarkerSweep.Storage
import MarkerSweep.Proofs.Tree.Outline

/-!
# The answer of a write

Whether a file can be written, and with which fault it cannot, does not depend on what is in any
file: `SameOutline.writeAtomic_error`. Each stage of a write is carried from a tree to another of the same
outline.
-/

namespace MarkerSweep

namespace Host

/-- Where a move puts a file or a link. -/
def landing (h : Host) (t : Tree) (target : Path) : Except SystemError (Location × Name) :=
  match h.slot t target with
  | .error e => .error e
  | .ok (dir, name) =>
    if target.endsInSlash then .error .notDirectory
    else if t.get? (name :: dir) = some .directory then .error .isDirectory
    else .ok (dir, name)

theorem rename_eq_error_iff {h : Host} {t : Tree} {source target : Path} {place : Location}
    {node : Node} (hl : h.look t false source = .ok (place, node)) (hnode : node ≠ .directory)
    {e : SystemError} :
    h.rename t source target = .error e ↔ h.landing t target = .error e := by
  unfold rename landing
  rw [hl]
  split
  · next he => cases he
  · next he => cases he; exact absurd rfl hnode
  · next he =>
    cases he
    cases h.slot t target with
    | error fault => simp
    | ok found =>
      simp only
      split
      · simp
      · split <;> simp

end Host

namespace Tree

variable {t t' : Tree} {h : Host} {p source target : Path} {place : Location}

/-! ### Looking up -/

theorem SameOutline.realPath_eq (ho : t.SameOutline t') (p : Path) :
    h.realPath t' p = h.realPath t p := by
  unfold Host.realPath
  rcases ho.look_eq_or_files true p with hl | ⟨place, f, f', hl, hl', -⟩
  · rw [hl]
  · rw [hl, hl']
    rfl

theorem SameOutline.writeTarget_eq (ho : t.SameOutline t') (p : Path) :
    h.writeTarget t' p = h.writeTarget t p := by
  unfold Host.writeTarget
  rw [ho.realPath_eq]
  rcases ho.look_eq_or_files false p with hl | ⟨place, f, f', hl, hl', -⟩
  · rw [hl]
  · rw [hl, hl']

theorem SameOutline.modeOf?_eq (ho : t.SameOutline t') (p : Path) :
    h.modeOf? t' p = h.modeOf? t p := by
  unfold Host.modeOf?
  rcases ho.look_eq_or_files true p with hl | ⟨place, f, f', hl, hl', hmode⟩
  · rw [hl]
  · rw [hl, hl']
    exact congrArg some hmode

theorem SameOutline.slot_eq (ho : t.SameOutline t') (p : Path) : h.slot t' p = h.slot t p := by
  unfold Host.slot
  cases p.spellingError? with
  | some e => rfl
  | none =>
    cases p.filledParts.getLast? with
    | none => rfl
    | some last =>
      simp only
      rcases ho.follow_eq_or_files true maxLinks (p.start h.cwd)
          (p.filledParts.dropLast.map Step.ofPart ++ [.stay]) with
        hf | ⟨place, f, f', spare, hf, hf', -⟩
      · rw [hf]
      · rw [hf, hf']

/-! ### Changing files -/

theorem SameOutline.put_file (ho : t.SameOutline t') (dir : Location) (name : Name) {f f' : File}
    (hmode : f'.mode = f.mode) :
    (t.put dir name (.file f)).SameOutline (t'.put dir name (.file f')) := by
  intro l
  rw [get?_put, get?_put]
  by_cases hl : l = name :: dir
  · rw [if_pos hl, if_pos hl]
    simp [Node.outline, hmode]
  · rw [if_neg hl, if_neg hl]
    exact ho l

theorem modifyFile_of_file {name : Name} {dir : Location} {f : File}
    (hf : t.get? (name :: dir) = some (.file f)) (change : File → File) :
    t.modifyFile (name :: dir) change = t.put dir name (.file (change f)) := by
  simp only [modifyFile, hf]

theorem modifyFile_of_not_file (hno : ∀ f, t.get? place ≠ some (.file f)) (change : File → File) :
    t.modifyFile place change = t := by
  unfold modifyFile
  split
  · next f hf => exact absurd hf (hno f)
  · rfl

/-- Files change alike if their permission bits do. -/
theorem SameOutline.modifyFile (ho : t.SameOutline t') (place : Location)
    {change change' : File → File}
    (hchange : ∀ f f', f'.mode = f.mode → (change' f').mode = (change f).mode) :
    (t.modifyFile place change).SameOutline (t'.modifyFile place change') := by
  by_cases hfile : ∃ f, t.get? place = some (.file f)
  · obtain ⟨f, hf⟩ := hfile
    obtain ⟨f', hf', hout⟩ := ho.exists_file hf
    have hmode : f'.mode = f.mode := by simpa [Node.outline] using hout
    cases place with
    | nil => cases hf
    | cons name dir =>
      rw [modifyFile_of_file hf, modifyFile_of_file hf']
      exact ho.put_file dir name (hchange f f' hmode)
  · have hno : ∀ f, t.get? place ≠ some (.file f) := fun f hf => hfile ⟨f, hf⟩
    have hno' : ∀ f, t'.get? place ≠ some (.file f) := by
      intro f hf
      obtain ⟨f', hf', -⟩ := ho.symm.exists_file hf
      exact hno f' hf'
    rw [modifyFile_of_not_file hno, modifyFile_of_not_file hno']
    exact ho

/-! ### The stages of a write -/

theorem SameOutline.openForWriting (ho : t.SameOutline t') (p : Path) :
    (∃ e, h.openForWriting t p = .error e ∧ h.openForWriting t' p = .error e) ∨
      ∃ place opened opened', h.openForWriting t p = .ok (place, opened) ∧
        h.openForWriting t' p = .ok (place, opened') ∧ opened.SameOutline opened' := by
  have hemptied (place : Location) :
      (t.modifyFile place fun f => { f with data := [] }).SameOutline
        (t'.modifyFile place fun f => { f with data := [] }) :=
    ho.modifyFile place fun _ _ hmode => hmode
  unfold Host.openForWriting
  rcases ho.resolve_eq_or_files true p with hr | ⟨place, f, f', spare, hr, hr', -⟩
  · rw [hr]
    cases h.resolve t true p with
    | error e => exact .inl ⟨e, rfl, rfl⟩
    | ok found =>
      cases found with
      | absent dir name => exact .inr ⟨_, _, _, rfl, rfl, ho.put_file dir name rfl⟩
      | present place node spare =>
        cases node with
        | file f => exact .inr ⟨_, _, _, rfl, rfl, hemptied place⟩
        | directory => exact .inl ⟨_, rfl, rfl⟩
        | link q => exact .inl ⟨_, rfl, rfl⟩
  · rw [hr, hr']
    exact .inr ⟨_, _, _, rfl, rfl, hemptied place⟩

theorem SameOutline.fill (ho : t.SameOutline t') (place : Location) (target : Path)
    (data data' : Bytes) :
    (h.fill t place target data).SameOutline (h.fill t' place target data') := by
  have hwritten : (t.modifyFile place fun f => { f with data := data }).SameOutline
      (t'.modifyFile place fun f => { f with data := data' }) :=
    ho.modifyFile place fun _ _ hmode => hmode
  unfold Host.fill
  simp only
  rw [hwritten.modeOf?_eq]
  split
  · exact hwritten.modifyFile place fun _ _ _ => rfl
  · exact hwritten

theorem SameOutline.landing_eq (ho : t.SameOutline t') (target : Path) :
    h.landing t' target = h.landing t target := by
  unfold Host.landing
  rw [ho.slot_eq]
  cases h.slot t target with
  | error e => rfl
  | ok found => simp only [ho.get?_eq_directory_iff]

/-- Where a move fails in one tree it fails in the other. -/
theorem SameOutline.rename_error (ho : t.SameOutline t') {e : SystemError}
    (hr : h.rename t source target = .error e) : h.rename t' source target = .error e := by
  rcases ho.look_eq_or_files (h := h) false source with hl | ⟨place, f, f', hl, hl', -⟩
  · cases hs : h.look t false source with
    | error fault =>
      rw [hs] at hl
      simp only [Host.rename, hs] at hr
      simp only [Host.rename, hl, hr]
    | ok found =>
      obtain ⟨place, node⟩ := found
      rw [hs] at hl
      by_cases hnode : node = .directory
      · subst hnode
        simp only [Host.rename, hs] at hr
        simp only [Host.rename, hl, hr]
      · rw [Host.rename_eq_error_iff hl hnode, ho.landing_eq]
        exact (Host.rename_eq_error_iff hs hnode).mp hr
  · rw [Host.rename_eq_error_iff hl' (by simp), ho.landing_eq]
    exact (Host.rename_eq_error_iff hl (by simp)).mp hr

theorem SameOutline.replaceFile_error (ho : t.SameOutline t') {e : FileError} {data : Bytes}
    (hr : (h.replaceFile t target data).1 = .error e) (data' : Bytes) :
    (h.replaceFile t' target data').1 = .error e := by
  unfold Host.replaceFile at hr ⊢
  rcases ho.openForWriting (h := h) (h.tempPath target) with
    ⟨e, hopen, hopen'⟩ | ⟨place, opened, opened', hopen, hopen', hopened⟩
  · simp only [hopen] at hr
    simp only [hopen', hr]
  · simp only [hopen] at hr
    simp only [hopen']
    have hfilled := hopened.fill (h := h) place target data data'
    cases hmove : h.rename (h.fill opened place target data) (h.tempPath target) target with
    | ok done =>
      rw [hmove] at hr
      cases hr
    | error fault =>
      rw [hmove] at hr
      rw [hfilled.rename_error hmove]
      exact hr

/-- A write that fails would fail in every tree of the same outline, and whatever the data. -/
theorem SameOutline.writeAtomic_error (ho : t.SameOutline t') {e : FileError} {data : Bytes}
    (hw : (h.writeAtomic t p data).1 = .error e) (data' : Bytes) :
    (h.writeAtomic t' p data').1 = .error e := by
  unfold Host.writeAtomic at hw ⊢
  rw [ho.writeTarget_eq]
  cases ht : h.writeTarget t p with
  | error fault =>
    rw [ht] at hw
    exact hw
  | ok target =>
    rw [ht] at hw
    exact ho.replaceFile_error hw data'

end Tree

end MarkerSweep
