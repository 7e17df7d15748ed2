import MarkerSweep.Proofs.Tree.WithFile

/-!
# Temporary files

What a temporary file does to the tree that it is put into, whether it is new or takes the place of
a file of its name. `TempAt.resolve_slot` says that the target is found as if it were not there, and
`TempAt.writes` what moving it to the target comes to.
-/

namespace MarkerSweep

/-- The permission bits of the file at a location. -/
def Tree.modeAt? (t : Tree) (place : Location) : Option Nat :=
  match t.get? place with
  | some (.file f) => some f.mode
  | _ => none

/-- The temporary file for `target` is going to be `name` in `dir`, where there is nothing yet, or a
file. -/
structure Host.TempAt (h : Host) (t : Tree) (target : Path) (dir : Location) (name : Name) :
    Prop where
  inhabits : h.Inhabits t
  leads : ∃ found, h.resolve t false (h.tempPath target) = .ok found ∧ found.place = name :: dir
  replaceable : t.Replaceable (name :: dir)

namespace Host

variable {h : Host} {t t' : Tree} {p target : Path} {data : Bytes} {dir dir' place : Location}
  {name name' : Name} {f : File}

/-- The name of a temporary file is the one that its path ends in. -/
theorem place_of_tempPath {found : Found}
    (hr : h.resolve t false (h.tempPath target) = .ok found) :
    ∃ name dir, found.place = name :: dir ∧
      name.bytes = h.tempName (target.fileName?.getD []) := by
  obtain ⟨first, hsteps⟩ := h.exists_steps_tempPath target
  obtain ⟨-, hleads⟩ := resolve_eq_ok_iff.mp hr
  rw [hsteps] at hleads
  obtain ⟨hstay, hup⟩ := h.ofPart_tempName (target.fileName?.getD [])
  obtain ⟨name, dir, hstep, hplace⟩ := hleads.place_of_last hstay hup
  exact ⟨name, dir, hplace, Step.eq_ofPart_of_down hstep⟩

theorem TempAt.get?_dir (hs : h.TempAt t target dir name) : t.get? dir = some .directory := by
  obtain ⟨found, hr, hplace⟩ := hs.leads
  have hdir := hs.inhabits.get?_tail hr
  rwa [hplace] at hdir

theorem TempAt.inhabits_put (hs : h.TempAt t target dir name) (f : File) :
    h.Inhabits (t.put dir name (.file f)) :=
  (Tree.withFile_put t dir name f).inhabits hs.inhabits hs.replaceable hs.get?_dir

theorem TempAt.look_put (hs : h.TempAt t target dir name) (f : File) :
    h.look (t.put dir name (.file f)) false (h.tempPath target) = .ok (name :: dir, .file f) := by
  have hw := Tree.withFile_put t dir name f
  obtain ⟨found, hr, hfound⟩ := hs.leads
  obtain ⟨found', hr', hplace⟩ := hw.resolve hs.inhabits hs.replaceable hr
  rw [hfound] at hplace
  rw [← hplace]
  exact look_of_resolve hr' (by rw [hplace, hw.get?_place])

theorem TempAt.discard_put (hs : h.TempAt t target dir name) (f : File) :
    h.discard (t.put dir name (.file f)) (h.tempPath target) =
      (t.put dir name (.file f)).erase (name :: dir) := by
  simp only [discard, remove, hs.look_put f]

theorem TempAt.name_eq (hs : h.TempAt t target dir name) :
    name.bytes = h.tempName (target.fileName?.getD []) := by
  obtain ⟨found, hr, hfound⟩ := hs.leads
  obtain ⟨name', dir', hplace, hbytes⟩ := place_of_tempPath hr
  obtain ⟨rfl, -⟩ := List.cons.inj (hfound.symm.trans hplace)
  exact hbytes

/-! ### The target, while the temporary file is there -/

theorem TempAt.slot_ne (hs : h.TempAt t target dir name) {f : File}
    (hslot : h.slot (t.put dir name (.file f)) target = .ok (dir', name'))
    (hslash : target.endsInSlash = false) : name :: dir ≠ name' :: dir' := by
  obtain ⟨-, first, spare, hparts, -⟩ := slot_eq_ok (hs.inhabits_put f) hslot
  intro heq
  have hname := hs.name_eq
  rw [Path.fileName?_of_last hparts hslash, (List.cons.inj heq).1] at hname
  exact h.ne_tempName _ hname

theorem TempAt.resolve_slot (hs : h.TempAt t target dir name) {f : File} {followLast : Bool}
    (hslot : h.slot (t.put dir name (.file f)) target = .ok (dir', name'))
    (hslash : target.endsInSlash = false)
    (hlink : followLast = false ∨ ∀ q, t.get? (name' :: dir') ≠ some (.link q)) :
    ∃ found, h.resolve t followLast target = .ok found ∧ found.place = name' :: dir' := by
  have hw := Tree.withFile_put t dir name f
  have hne := (hs.slot_ne hslot hslash).symm
  rw [← hw.get?_other hne] at hlink
  obtain ⟨found, hr, hplace⟩ := resolve_of_slot (hs.inhabits_put f) hslot hslash hlink
  obtain ⟨found', hr', hplace'⟩ := hw.resolve_back (hs.inhabits_put f) (hplace ▸ hne) hr
  exact ⟨found', hr', hplace'.trans hplace⟩

theorem modeOf?_of_resolve {found : Found} (hr : h.resolve t true p = .ok found)
    (hp : t.Replaceable found.place) : h.modeOf? t p = t.modeAt? found.place := by
  unfold modeOf? Tree.modeAt?
  cases hn : t.get? found.place with
  | none =>
    split
    · next hl => exact absurd hl (not_look_of_resolve hr hn _)
    · next hl => exact absurd hl (not_look_of_resolve hr hn _)
    · rfl
  | some node =>
    obtain ⟨f, rfl⟩ := hp node hn
    rw [look_of_resolve hr hn]

theorem TempAt.modeOf?_put (hs : h.TempAt t target dir name) {f : File} {found : Found}
    (hr : h.resolve t true target = .ok found) (hp : t.Replaceable found.place)
    (hne : found.place ≠ name :: dir) :
    h.modeOf? (t.put dir name (.file f)) target = t.modeAt? found.place := by
  have hw := Tree.withFile_put t dir name f
  have hsame := hw.get?_other hne
  obtain ⟨found', hr', hplace⟩ := hw.resolve hs.inhabits hs.replaceable hr
  have hp' : (t.put dir name (.file f)).Replaceable found'.place := by
    intro node hn
    rw [hplace, hsame] at hn
    exact hp node hn
  rw [modeOf?_of_resolve hr' hp', hplace]
  simp only [Tree.modeAt?, hsame]

theorem fill_put (h : Host) (t : Tree) (dir : Location) (name : Name) (f : File) (target : Path)
    (data : Bytes) :
    h.fill (t.put dir name (.file f)) (name :: dir) target data =
      t.put dir name (.file { f with
        data := data
        mode := (h.modeOf? (t.put dir name (.file { f with data := data })) target).getD
          f.mode }) := by
  simp only [fill, Tree.modifyFile_put]
  split
  · next mode hm => simp only [hm, Option.getD_some]
  · next hm => simp only [hm, Option.getD_none]

/-! ### Moving the temporary file over the target -/

theorem rename_eq_ok {source : Path} (hr : h.rename t source target = .ok t') :
    ∃ l node dir name, h.look t false source = .ok (l, node) ∧
      h.slot t target = .ok (dir, name) ∧ target.endsInSlash = false ∧
      t.get? (name :: dir) ≠ some .directory ∧ t' = (t.erase l).put dir name node := by
  unfold rename at hr
  split at hr
  · cases hr
  · cases hr
  · next l node _ hl =>
    split at hr
    · cases hr
    · next dir name hslot =>
      split at hr
      · cases hr
      · next hslash =>
        split at hr
        · cases hr
        · next hdir =>
          cases hr
          exact ⟨l, node, dir, name, hl, hslot, Bool.eq_false_iff.mpr hslash, hdir, rfl⟩

theorem TempAt.of_rename (hs : h.TempAt t target dir name) {f : File}
    (hr : h.rename (t.put dir name (.file f)) (h.tempPath target) target = .ok t') :
    ∃ dir' name', h.slot (t.put dir name (.file f)) target = .ok (dir', name') ∧
      target.endsInSlash = false ∧ t.get? (name' :: dir') ≠ some .directory ∧
      (t.erase (name :: dir)).WithFile (name' :: dir') f t' := by
  obtain ⟨l, node, dir', name', hl, hslot, hslash, hdir, rfl⟩ := rename_eq_ok hr
  obtain ⟨rfl, rfl⟩ := Prod.mk.inj (Except.ok.inj (hl.symm.trans (hs.look_put f)))
  have hw := Tree.withFile_put t dir name f
  rw [hw.get?_other (hs.slot_ne hslot hslash).symm] at hdir
  exact ⟨dir', name', hslot, hslash, hdir, Tree.withFile_move t dir name dir' name' f⟩

/-- The temporary file goes where the target leads: both are found from the same directory. -/
theorem TempAt.writes (hs : h.TempAt t target dir name) {f : File}
    (hnolink : ∀ place q, h.look t false target ≠ .ok (place, .link q))
    (hr : h.rename (t.put dir name (.file f)) (h.tempPath target) target = .ok t') :
    ∃ found, h.resolve t true target = .ok found ∧ t.Replaceable found.place ∧
      name :: dir ≠ found.place ∧ (t.erase (name :: dir)).WithFile found.place f t' := by
  obtain ⟨dir', name', hslot, hslash, hdir, hw⟩ := hs.of_rename hr
  -- The slot holds no directory, which the move refuses, and no link, which `target` is not.
  have hp : t.Replaceable (name' :: dir') := by
    intro node hn
    obtain ⟨found, hfound, hplace⟩ := hs.resolve_slot hslot hslash (.inl rfl)
    rw [← hplace] at hn hdir
    cases node with
    | file f => exact ⟨f, rfl⟩
    | directory => exact absurd hn hdir
    | link q => exact absurd (look_of_resolve hfound hn) (hnolink _ q)
  have hend : ∀ q, t.get? (name' :: dir') ≠ some (.link q) := by
    intro q hn
    obtain ⟨f, hf⟩ := hp _ hn
    cases hf
  obtain ⟨found, hfound, hplace⟩ := hs.resolve_slot hslot hslash (.inr hend)
  rw [← hplace] at hp hw
  exact ⟨found, hfound, hp, hplace ▸ hs.slot_ne hslot hslash, hw⟩

/-- What a replacement comes to once its temporary file is open: the temporary file is taken away
again, or it has become the target. -/
theorem TempAt.replaceFile (hs : h.TempAt t target dir name)
    (ho : h.openForWriting t (h.tempPath target) = .ok (name :: dir, t.put dir name (.file f)))
    (hnolink : ∀ place q, h.look t false target ≠ .ok (place, .link q)) (data : Bytes) :
    (∃ e f', h.replaceFile t target data =
      (.error e, (t.put dir name (.file f')).erase (name :: dir))) ∨
      ∃ found f' t', h.replaceFile t target data = (.ok (), t') ∧
        h.resolve t true target = .ok found ∧ t.Replaceable found.place ∧
        name :: dir ≠ found.place ∧ f'.data = data ∧
        f'.mode = (t.modeAt? found.place).getD f.mode ∧
        (t.erase (name :: dir)).WithFile found.place f' t' := by
  simp only [Host.replaceFile, ho, fill_put]
  split
  · exact .inl ⟨_, _, by rw [hs.discard_put]⟩
  · next t' hr =>
    obtain ⟨found, hfound, hp, hne, hw⟩ := hs.writes hnolink hr
    refine .inr ⟨found, _, t', rfl, hfound, hp, hne, rfl, ?_, hw⟩
    show Option.getD _ _ = _
    rw [hs.modeOf?_put hfound hp hne.symm]

end Host

end MarkerSweep
