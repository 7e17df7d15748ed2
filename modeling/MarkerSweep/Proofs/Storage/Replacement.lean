import MarkerSweep.Proofs.Storage.Staging

/-!
# Writing all or nothing

`writeAtomic_all_or_nothing`: a write that fails leaves the tree as it was, and one that succeeds
changes the one file that its path leads to. The temporary file is gone in both cases.
-/

namespace MarkerSweep

/-- Writing `data` to `p` puts the file `f` at `place`, which the path leads to, and leaves the rest
of `t` as it is in `t'`. -/
structure Host.Writes (h : Host) (t : Tree) (p : Path) (data : Bytes) (place : Location) (f : File)
    (t' : Tree) : Prop where
  leads : ∃ found, h.resolve t true p = .ok found ∧ found.place = place
  replaceable : t.Replaceable place
  data_eq : f.data = data
  mode_eq : f.mode = (t.modeAt? place).getD h.freshMode
  withFile : t.WithFile place f t'

/-- The temporary file for `target` is not there yet, and is going to be `name` in `dir`. -/
structure Host.Staged (h : Host) (t : Tree) (target : Path) (dir : Location) (name : Name) :
    Prop where
  inhabits : h.Inhabits t
  absent : h.resolve t false (h.tempPath target) = .ok (.absent dir name)

namespace Host

variable {h : Host} {t t' : Tree} {p target : Path} {data : Bytes} {dir dir' place : Location}
  {name name' : Name} {f : File}

/-! ### The temporary file -/

theorem resolve_of_nothing (hfree : ∀ at_, h.look t false p ≠ .ok at_) {found : Found}
    (hr : h.resolve t true p = .ok found) :
    ∃ dir name, found = .absent dir name ∧ h.resolve t false p = .ok (.absent dir name) := by
  have hr' := resolve_unfollowed hr fun place target => hfree (place, .link target)
  cases found with
  | present place node spare => exact absurd (look_eq_ok_iff.mpr ⟨spare, hr'⟩) (hfree _)
  | absent dir name => exact ⟨dir, name, rfl, hr'⟩

theorem Staged.get?_eq_none (hs : h.Staged t target dir name) : t.get? (name :: dir) = none :=
  get?_of_resolve hs.absent

theorem Staged.tempAt (hs : h.Staged t target dir name) : h.TempAt t target dir name :=
  ⟨hs.inhabits, ⟨_, hs.absent, rfl⟩, Tree.replaceable_of_none hs.get?_eq_none⟩

theorem Staged.not_look (hs : h.Staged t target dir name) (hw : t.WithFile place f t')
    (hp : t.Replaceable place) (hne : name :: dir ≠ place) (at_ : Location × Node) :
    h.look t' false (h.tempPath target) ≠ .ok at_ := by
  have hnone : t'.get? (name :: dir) = none := (hw.get?_other hne).trans hs.get?_eq_none
  obtain ⟨found, hr, hplace⟩ := hw.resolve hs.inhabits hp hs.absent
  exact not_look_of_resolve hr ((congrArg t'.get? hplace).trans hnone) at_

/-! ### The whole write -/

theorem discard_of_nothing (hfree : ∀ at_, h.look t false p ≠ .ok at_) : h.discard t p = t := by
  unfold discard remove
  cases hl : h.look t false p with
  | error e => rfl
  | ok at_ => exact absurd hl (hfree at_)

theorem openForWriting_of_nothing (hfree : ∀ at_, h.look t false p ≠ .ok at_)
    {opened : Location × Tree} (ho : h.openForWriting t p = .ok opened) :
    ∃ dir name, h.resolve t false p = .ok (.absent dir name) ∧
      opened = (name :: dir, t.put dir name (.file ⟨t.freshSerial, h.freshMode, []⟩)) := by
  unfold openForWriting at ho
  cases hr : h.resolve t true p with
  | error e => rw [hr] at ho; cases ho
  | ok found =>
    obtain ⟨dir, name, rfl, habsent⟩ := resolve_of_nothing hfree hr
    rw [hr] at ho
    cases ho
    exact ⟨dir, name, habsent, rfl⟩

theorem replaceFile_spec (hi : h.Inhabits t)
    (hfree : ∀ at_, h.look t false (h.tempPath target) ≠ .ok at_)
    (hnolink : ∀ place q, h.look t false target ≠ .ok (place, .link q)) (data : Bytes) :
    (∃ e, h.replaceFile t target data = (.error e, t)) ∨
      ∃ place f t', h.replaceFile t target data = (.ok (), t') ∧
        h.Writes t target data place f t' ∧
        ∀ at_, h.look t' false (h.tempPath target) ≠ .ok at_ := by
  cases ho : h.openForWriting t (h.tempPath target) with
  | error e =>
    simp only [replaceFile, ho, discard_of_nothing hfree]
    exact .inl ⟨_, rfl⟩
  | ok opened =>
    obtain ⟨dir, name, habsent, rfl⟩ := openForWriting_of_nothing hfree ho
    have hs : h.Staged t target dir name := ⟨hi, habsent⟩
    rcases hs.tempAt.replaceFile ho hnolink data with
      ⟨e, f, he⟩ | ⟨found, f, t', hdone, hfound, hp, hne, hdata, hmode, hw⟩
    · rw [Tree.erase_put hs.get?_eq_none] at he
      exact .inl ⟨e, he⟩
    · have hw := hw.of_erase hs.get?_eq_none
      exact .inr ⟨found.place, f, t', hdone, ⟨⟨found, hfound, rfl⟩, hp, hdata, hmode, hw⟩,
        hs.not_look hw hp hne⟩

/-! ### Through links -/

theorem Writes.look_eq (hi : h.Inhabits t) (hw : h.Writes t p data place f t') :
    h.look t' true p = .ok (place, .file f) := by
  obtain ⟨found, hr, rfl⟩ := hw.leads
  have hget := hw.withFile.get?_place
  obtain ⟨found', hr', hplace⟩ := hw.withFile.resolve hi hw.replaceable hr
  rw [← hplace] at hget ⊢
  exact look_of_resolve hr' hget

theorem Writes.readText_eq (hi : h.Inhabits t) (hw : h.Writes t p data place f t')
    {text : List Char} (hd : Utf8.decode data = .ok text) : h.readText t' p = .ok text := by
  simp only [readText, readFile, hw.look_eq hi, hw.data_eq, hd]

theorem Writes.look_link (hi : h.Inhabits t) (hw : h.Writes t p data place f t') {l : Location}
    {q : Path} (hl : h.look t false p = .ok (l, .link q)) :
    h.look t' false p = .ok (l, .link q) := by
  obtain ⟨spare, hr⟩ := look_eq_ok_iff.mp hl
  have hsame : t'.get? l = some (.link q) :=
    hw.withFile.carries hw.replaceable l _ (get?_of_resolve hr) (by simp)
  obtain ⟨found, hr', hplace⟩ := hw.withFile.resolve hi hw.replaceable hr
  have hplace : found.place = l := hplace
  subst hplace
  exact look_of_resolve hr' hsame

/-- What a write replaces is no link, and the path and its target lead to the same place. -/
theorem writeTarget_spec (hi : h.Inhabits t) (ht : h.writeTarget t p = .ok target) :
    (∀ place q, h.look t false target ≠ .ok (place, .link q)) ∧
      ∀ found, h.resolve t true target = .ok found →
        ∃ found', h.resolve t true p = .ok found' ∧ found'.place = found.place := by
  unfold writeTarget at ht
  split at ht
  · next l q hl =>
    cases hreal : h.realPath t p with
    | error e => simp only [hreal] at ht; cases ht
    | ok real =>
      simp only [hreal] at ht
      cases ht
      unfold realPath at hreal
      cases hlook : h.look t true p with
      | error e => rw [hlook] at hreal; cases hreal
      | ok at_ =>
        obtain ⟨place, node⟩ := at_
        rw [hlook] at hreal
        cases hreal
        obtain ⟨spare, hr⟩ := look_eq_ok_iff.mp hlook
        have hget : t.get? place = some node := get?_of_resolve hr
        have hend : ∀ q, t.get? place ≠ some (.link q) := by
          intro q hq
          rw [hget] at hq
          exact node?_ne_link hi hr q hq
        -- The path of the place leads back to the place, which holds no link.
        have hback {followLast : Bool} {found : Found}
            (hfound : h.resolve t followLast place.path = .ok found) : found.place = place :=
          resolve_path hi (by simp [hget]) hend hfound
        refine ⟨fun l q hlink => ?_, fun found hfound => ⟨_, hr, (hback hfound).symm⟩⟩
        obtain ⟨spare', hlink⟩ := look_eq_ok_iff.mp hlink
        have hl : l = place := hback hlink
        exact hend q (hl ▸ get?_of_resolve hlink)
  · next hno =>
    cases ht
    exact ⟨hno, fun found hfound => ⟨found, hfound, rfl⟩⟩

theorem writeAtomic_spec (hi : h.Inhabits t)
    (hfree : ∀ target, h.writeTarget t p = .ok target →
      ∀ at_, h.look t false (h.tempPath target) ≠ .ok at_) (data : Bytes) :
    (∃ e, h.writeAtomic t p data = (.error e, t)) ∨
      ∃ place f t', h.writeAtomic t p data = (.ok (), t') ∧ h.Writes t p data place f t' ∧
        ∀ target, h.writeTarget t p = .ok target →
          ∀ at_, h.look t' false (h.tempPath target) ≠ .ok at_ := by
  unfold writeAtomic
  cases ht : h.writeTarget t p with
  | error e => exact .inl ⟨e, rfl⟩
  | ok target =>
    obtain ⟨hnolink, hsame⟩ := writeTarget_spec hi ht
    rcases replaceFile_spec hi (hfree target ht) hnolink data with
      ⟨e, he⟩ | ⟨place, f, t', hdone, hw, hgone⟩
    · exact .inl ⟨e, he⟩
    · obtain ⟨found, hr, rfl⟩ := hw.leads
      have hw : h.Writes t p data found.place f t' :=
        { hw with leads := hsame found hr }
      refine .inr ⟨_, f, t', hdone, hw, ?_⟩
      rintro _ ⟨⟩
      exact hgone

/-- A write that fails changes nothing. One that succeeds changes the one file that its path leads
to: links stay, no temporary file is left, and the text is there to be read. -/
theorem writeAtomic_all_or_nothing (hi : h.Inhabits t)
    (hfree : ∀ target, h.writeTarget t p = .ok target →
      ∀ at_, h.look t false (h.tempPath target) ≠ .ok at_) (data : Bytes) :
    (∃ e, h.writeAtomic t p data = (.error e, t)) ∨
      ∃ place f t', h.writeAtomic t p data = (.ok (), t') ∧ h.Writes t p data place f t' ∧
        (∀ l q, h.look t false p = .ok (l, .link q) → h.look t' false p = .ok (l, .link q)) ∧
        (∀ target, h.writeTarget t p = .ok target →
          ∀ at_, h.look t' false (h.tempPath target) ≠ .ok at_) ∧
        ∀ text, Utf8.decode data = .ok text → h.readText t' p = .ok text := by
  rcases writeAtomic_spec hi hfree data with ⟨e, he⟩ | ⟨place, f, t', hdone, hw, hgone⟩
  · exact .inl ⟨e, he⟩
  · refine .inr ⟨place, f, t', hdone, hw, ?_, hgone, ?_⟩
    · intro l q hl
      exact hw.look_link hi hl
    · intro text hd
      exact hw.readText_eq hi hd

/-- Writing through a link: the file that it leads to keeps its permission bits. -/
theorem writeAtomic_through_link :
    let h : Host := ⟨[], 7, 0o022⟩
    let a : Name := ⟨[0x61], by decide⟩
    let b : Name := ⟨[0x62], by decide⟩
    let t := (Tree.empty.put [] a (.file ⟨0, 0o640, []⟩)).put [] b (.link ⟨a.bytes⟩)
    let p : Path := ⟨b.bytes⟩
    h.Inhabits t ∧
      (∀ target, h.writeTarget t p = .ok target →
        ∀ at_, h.look t false (h.tempPath target) ≠ .ok at_) ∧
      ∃ place f t', h.writeAtomic t p [0x63] = (.ok (), t') ∧
        h.Writes t p [0x63] place f t' ∧
        (∀ l q, h.look t false p = .ok (l, .link q) → h.look t' false p = .ok (l, .link q)) ∧
        (∀ target, h.writeTarget t p = .ok target →
          ∀ at_, h.look t' false (h.tempPath target) ≠ .ok at_) ∧
        (∀ text, Utf8.decode [0x63] = .ok text → h.readText t' p = .ok text) ∧
        t'.get? [a] = some (.file ⟨1, 0o640, [0x63]⟩) ∧ h.readText t' p = .ok ['c'] := by
  intro h a b t p
  have hi : h.Inhabits t := by decide
  have htarget : (h.writeTarget t p).toOption = some ⟨[0x2F, 0x61]⟩ := by decide +kernel
  have hnone : (h.look t false (h.tempPath ⟨[0x2F, 0x61]⟩)).toOption = none := by decide +kernel
  have hfree : ∀ target, h.writeTarget t p = .ok target →
      ∀ at_, h.look t false (h.tempPath target) ≠ .ok at_ := by
    intro target ht at_ hl
    rw [ht] at htarget
    obtain rfl := Option.some.inj htarget
    rw [hl] at hnone
    cases hnone
  have hok : (h.writeAtomic t p [0x63]).1.toBool = true := by decide +kernel
  have hget : (h.writeAtomic t p [0x63]).2.get? [a] = some (.file ⟨1, 0o640, [0x63]⟩) := by
    decide +kernel
  refine ⟨hi, hfree, ?_⟩
  rcases writeAtomic_all_or_nothing hi hfree [0x63] with
    ⟨e, he⟩ | ⟨place, f, t', hdone, hw, hlink, hgone, hread⟩
  · rw [he] at hok
    cases hok
  · rw [hdone] at hget
    exact ⟨place, f, t', hdone, hw, hlink, hgone, hread, hget, hread _ rfl⟩

end Host

end MarkerSweep
