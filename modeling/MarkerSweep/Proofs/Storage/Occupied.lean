import MarkerSweep.Proofs.Storage.Replacement
import Mathlib.Control.Monad.Basic

/-!
# Writing where a temporary name is taken

The name of a temporary file may be taken already. `writeAtomic_spares_others` shows that a write
changes no file but its target and the one that the temporary name leads to, and that it does all
else that it should unless that name is a link. `writeAtomic_follows_temp_link` shows what is wrong
with a link there, which is followed.
-/

namespace MarkerSweep

namespace Host

variable {h : Host} {t t' : Tree} {p target : Path} {data : Bytes} {dir place : Location}
  {name : Name} {f : File}

/-! ### Opening the temporary file -/

/-- A file that is opened is put where its path leads, in the place of nothing or of a file. -/
theorem exists_put_of_openForWriting {opened : Location × Tree}
    (ho : h.openForWriting t p = .ok opened) :
    ∃ found dir name f, h.resolve t true p = .ok found ∧ found.place = name :: dir ∧
      t.Replaceable (name :: dir) ∧ opened = (name :: dir, t.put dir name (.file f)) := by
  unfold openForWriting at ho
  cases hr : h.resolve t true p with
  | error e => rw [hr] at ho; cases ho
  | ok found =>
    have hget := get?_of_resolve hr
    rw [hr] at ho
    cases found with
    | absent dir name =>
      cases ho
      exact ⟨_, dir, name, _, rfl, rfl, Tree.replaceable_of_none hget, rfl⟩
    | present place node spare =>
      have hget : t.get? place = some node := hget
      cases node with
      | directory => cases ho
      | link q => cases ho
      | file f =>
        cases place with
        | nil => cases hget
        | cons name dir =>
          simp only [Tree.modifyFile, hget] at ho
          cases ho
          refine ⟨_, dir, name, _, rfl, rfl, ?_, rfl⟩
          intro node hn
          exact ⟨f, Option.some.inj (hn.symm.trans hget)⟩

theorem exists_tempAt (hi : h.Inhabits t)
    (hno : ∀ l q, h.look t false (h.tempPath target) ≠ .ok (l, .link q))
    {opened : Location × Tree} (ho : h.openForWriting t (h.tempPath target) = .ok opened) :
    ∃ dir name f, h.TempAt t target dir name ∧
      opened = (name :: dir, t.put dir name (.file f)) := by
  obtain ⟨found, dir, name, f, hr, hplace, hp, rfl⟩ := exists_put_of_openForWriting ho
  exact ⟨dir, name, f, ⟨hi, ⟨found, resolve_unfollowed hr hno, hplace⟩, hp⟩, rfl⟩

theorem resolve_of_look_file (hl : h.look t false p = .ok (place, .file f)) :
    ∃ spare, h.resolve t true p = .ok (.present place (.file f) spare) := by
  obtain ⟨spare, hr⟩ := look_eq_ok_iff.mp hl
  obtain ⟨hp, hleads⟩ := resolve_eq_ok_iff.mp hr
  exact ⟨spare, resolve_eq_ok_iff.mpr ⟨hp, hleads.followed (by simp [Found.node?])⟩⟩

theorem discard_of_unopened {e : SystemError} (ho : h.openForWriting t p = .error e)
    (hno : ∀ l q, h.look t false p ≠ .ok (l, .link q)) : h.discard t p = t := by
  unfold discard remove
  cases hl : h.look t false p with
  | error e => rfl
  | ok found =>
    obtain ⟨place, node⟩ := found
    cases node with
    | directory => rfl
    | link q => exact absurd hl (hno place q)
    -- A file could have been opened.
    | file f =>
      obtain ⟨spare, hr⟩ := resolve_of_look_file hl
      unfold openForWriting at ho
      rw [hr] at ho
      cases ho

/-! ### Files that are neither target nor temporary -/

theorem ne_of_look_file (hf : t.get? place = some (.file f))
    (hother : ∀ found, h.resolve t true p = .ok found → found.place ≠ place) {l : Location}
    {node : Node} (hl : h.look t false p = .ok (l, node)) : place ≠ l := by
  rintro rfl
  obtain rfl := Option.some.inj ((get?_of_look hl).symm.trans hf)
  obtain ⟨spare, hr⟩ := resolve_of_look_file hl
  exact hother _ hr rfl

theorem get?_discard_other (hf : t.get? place = some (.file f))
    (hother : ∀ found, h.resolve t true p = .ok found → found.place ≠ place) :
    (h.discard t p).get? place = some (.file f) := by
  unfold discard remove
  cases hl : h.look t false p with
  | error e => exact hf
  | ok found =>
    obtain ⟨l, node⟩ := found
    have hne : place ≠ l := ne_of_look_file hf hother hl
    cases node with
    | directory => exact hf
    | file f' => exact (Tree.get?_erase_ne hne).trans hf
    | link q => exact (Tree.get?_erase_ne hne).trans hf

theorem get?_rename_other (hf : t.get? place = some (.file f)) {source : Path}
    (hsource : ∀ found, h.resolve t true source = .ok found → found.place ≠ place)
    (htarget : ∀ dir name, h.slot t target = .ok (dir, name) → target.endsInSlash = false →
      place ≠ name :: dir)
    (hr : h.rename t source target = .ok t') : t'.get? place = some (.file f) := by
  obtain ⟨l, node, dir, name, hl, hslot, hslash, -, rfl⟩ := rename_eq_ok hr
  have hne : place ≠ l := ne_of_look_file hf hsource hl
  rw [Tree.get?_put, if_neg (htarget dir name hslot hslash), Tree.get?_erase_ne hne, hf]

theorem get?_replaceFile_other (hi : h.Inhabits t) (hf : t.get? place = some (.file f))
    (htarget : ∀ found, h.resolve t true target = .ok found → found.place ≠ place)
    (htemp : ∀ found, h.resolve t true (h.tempPath target) = .ok found → found.place ≠ place)
    (data : Bytes) : (h.replaceFile t target data).2.get? place = some (.file f) := by
  unfold replaceFile
  cases ho : h.openForWriting t (h.tempPath target) with
  | error e =>
    simp only [ho]
    exact get?_discard_other hf htemp
  | ok opened =>
    obtain ⟨found, dir, name, f', hr, hplace, hp, rfl⟩ := exists_put_of_openForWriting ho
    obtain ⟨filled, hfill⟩ : ∃ filled, h.fill (t.put dir name (.file f')) (name :: dir) target data =
        t.put dir name (.file filled) := ⟨_, fill_put h t dir name f' target data⟩
    simp only [ho, hfill]
    have hw := Tree.withFile_put t dir name filled
    have hne : place ≠ name :: dir := hplace ▸ (htemp found hr).symm
    have hfilled : (t.put dir name (.file filled)).get? place = some (.file f) :=
      (hw.get?_other hne).trans hf
    have hi' : h.Inhabits (t.put dir name (.file filled)) := by
      refine hw.inhabits hi hp ?_
      rw [← hplace]
      exact hi.get?_tail hr
    -- The temporary name leads where it led, and so does the target.
    have htemp' : ∀ found', h.resolve (t.put dir name (.file filled)) true (h.tempPath target) =
        .ok found' → found'.place ≠ place := by
      intro found' hr'
      obtain ⟨found'', hr'', hplace'⟩ := hw.resolve hi hp hr
      obtain rfl := Except.ok.inj (hr''.symm.trans hr')
      rw [hplace', hplace]
      exact hne.symm
    split
    · exact get?_discard_other hfilled htemp'
    · next t' hrename =>
      refine get?_rename_other hfilled htemp' ?_ hrename
      rintro dir' name' hslot hslash rfl
      have hlink : ∀ q, (t.put dir name (.file filled)).get? (name' :: dir') ≠ some (.link q) := by
        intro q hq
        cases hfilled.symm.trans hq
      obtain ⟨found', hr', hplace'⟩ := resolve_of_slot hi' hslot hslash (.inr hlink)
      obtain ⟨found'', hr'', hplace''⟩ := hw.resolve_back hi' (hplace' ▸ hne) hr'
      exact htarget found'' hr'' (hplace''.trans hplace')

/-! ### The temporary name and the target -/

theorem fileName?_of_look (hi : h.Inhabits t) (hl : h.look t false p = .ok (place, .file f)) :
    ∃ name dir, place = name :: dir ∧ p.fileName? = some name.bytes := by
  obtain ⟨spare, hr⟩ := look_eq_ok_iff.mp hl
  obtain ⟨-, hleads⟩ := resolve_eq_ok_iff.mp hr
  obtain ⟨first, name, dir, hsteps, hplace⟩ := hleads.last_of_file hi.rooted (hi.start p)
  refine ⟨name, dir, hplace, ?_⟩
  unfold Path.steps at hsteps
  cases hslash : p.endsInSlash with
  | true =>
    rw [hslash, if_pos rfl] at hsteps
    cases (List.append_inj' hsteps rfl).2
  | false =>
    rw [hslash, if_neg Bool.false_ne_true, List.append_nil] at hsteps
    obtain ⟨front, last, hparts, -, hlast⟩ := List.map_eq_append_iff.mp hsteps
    obtain ⟨part, rfl, hpart⟩ := List.map_eq_singleton_iff.mp hlast
    rw [← Step.eq_ofPart_of_down hpart] at hparts
    exact Path.fileName?_of_last hparts hslash

theorem fileName?_of_writeTarget (hi : h.Inhabits t) (ht : h.writeTarget t p = .ok target)
    (hl : h.look t true p = .ok (place, .file f)) :
    ∃ name dir, place = name :: dir ∧ target.fileName? = some name.bytes := by
  unfold writeTarget at ht
  split at ht
  · rw [realPath, hl] at ht
    cases ht
    cases place with
    | nil => cases get?_of_look hl
    | cons name dir =>
      refine ⟨name, dir, rfl, ?_⟩
      apply Path.fileName?_of_last _ Location.endsInSlash_path
      · exact dir.reverse.map Name.bytes
      · rw [Location.filledParts_path, List.reverse_cons, List.map_append, List.map_singleton]
  · next hno =>
    cases ht
    obtain ⟨spare, hr⟩ := look_eq_ok_iff.mp hl
    exact fileName?_of_look hi (look_eq_ok_iff.mpr ⟨spare, resolve_unfollowed hr hno⟩)

theorem TempAt.get?_erase_target (hs : h.TempAt t target dir name)
    (ht : h.writeTarget t p = .ok target) (hl : h.look t true p = .ok (place, .file f)) :
    (t.erase (name :: dir)).get? place = some (.file f) := by
  obtain ⟨name', dir', rfl, hname'⟩ := fileName?_of_writeTarget hs.inhabits ht hl
  have hne : name' :: dir' ≠ name :: dir := by
    intro heq
    have hname := hs.name_eq
    rw [hname', ← (List.cons.inj heq).1] at hname
    exact h.ne_tempName _ hname
  rw [Tree.get?_erase_ne hne, get?_of_look hl]

/-! ### The whole write -/

theorem TempAt.look_replaced (hs : h.TempAt t target dir name) {found : Found}
    (hr : h.resolve t true p = .ok found) (hp : t.Replaceable found.place)
    (hw : (t.erase (name :: dir)).WithFile found.place f t') :
    h.look t' true p = .ok (found.place, .file f) := by
  have hc : t.Carries t' := by
    intro l node hn hnode
    rw [hw, Tree.get?_erase]
    split
    · next hl =>
      subst hl
      obtain ⟨old, rfl⟩ := hp node hn
      exact absurd rfl (hnode old)
    · split
      · next hl =>
        subst hl
        obtain ⟨old, rfl⟩ := hs.replaceable node hn
        exact absurd rfl (hnode old)
      · exact hn
  obtain ⟨found', hr', hplace⟩ := resolve_carried hs.inhabits hc hr fun node hn =>
    .inl ⟨f, (Option.some.inj (hw.get?_place.symm.trans hn)).symm⟩
  rw [← hplace]
  exact look_of_resolve hr' (hplace ▸ hw.get?_place)

/-- What a write comes to if no link has its temporary name: nothing changes, or what is at that
name is gone; and the write has failed, or the target is there. -/
theorem writeAtomic_cases (hi : h.Inhabits t)
    (hno : ∀ target, h.writeTarget t p = .ok target →
      ∀ l q, h.look t false (h.tempPath target) ≠ .ok (l, .link q)) (data : Bytes) :
    (∃ e, h.writeAtomic t p data = (.error e, t)) ∨
      ∃ target dir name, h.writeTarget t p = .ok target ∧ h.TempAt t target dir name ∧
        ((∃ e t', h.writeAtomic t p data = (.error e, t') ∧
            ∀ l, t'.get? l = (t.erase (name :: dir)).get? l) ∨
          ∃ found f t', h.writeAtomic t p data = (.ok (), t') ∧
            h.resolve t true p = .ok found ∧ t.Replaceable found.place ∧ f.data = data ∧
            (t.erase (name :: dir)).WithFile found.place f t') := by
  cases ht : h.writeTarget t p with
  | error e => exact .inl ⟨e, by simp only [writeAtomic, ht]⟩
  | ok target =>
    obtain ⟨hnolink, hsame⟩ := writeTarget_spec hi ht
    have hwrite : h.writeAtomic t p data = h.replaceFile t target data := by
      simp only [writeAtomic, ht]
    rw [hwrite]
    cases ho : h.openForWriting t (h.tempPath target) with
    | error e =>
      refine .inl ⟨.io (h.tempPath target) e, ?_⟩
      simp only [replaceFile, ho, discard_of_unopened ho (hno target ht)]
    | ok opened =>
      obtain ⟨dir, name, f, hs, rfl⟩ := exists_tempAt hi (hno target ht) ho
      refine .inr ⟨target, dir, name, rfl, hs, ?_⟩
      rcases hs.replaceFile ho hnolink data with
        ⟨e, f', he⟩ | ⟨found, f', t', hdone, hfound, hp, -, hdata, -, hw⟩
      · exact .inl ⟨e, _, he, Tree.get?_erase_put t dir name _⟩
      · obtain ⟨found', hr, hplace⟩ := hsame found hfound
        rw [← hplace] at hp hw
        exact .inr ⟨found', f', t', hdone, hr, hp, hdata, hw⟩

theorem get?_writeAtomic_other (hi : h.Inhabits t) (hf : t.get? place = some (.file f))
    (hother : ∀ found, h.resolve t true p = .ok found → found.place ≠ place)
    (htemp : ∀ target found, h.writeTarget t p = .ok target →
      h.resolve t true (h.tempPath target) = .ok found → found.place ≠ place) (data : Bytes) :
    (h.writeAtomic t p data).2.get? place = some (.file f) := by
  unfold writeAtomic
  cases ht : h.writeTarget t p with
  | error e => exact hf
  | ok target =>
    refine get?_replaceFile_other hi hf ?_ (fun found => htemp target found ht) data
    intro found hr
    obtain ⟨found', hr', hplace⟩ := (writeTarget_spec hi ht).2 found hr
    rw [← hplace]
    exact hother found' hr'

/-- A write leaves every file as it is but the one that its path leads to and the one that the
temporary name leads to. If no link has that name, the latter is a file of that name, a write that
fails leaves its target, too, and one that succeeds makes its target a file with the data. -/
theorem writeAtomic_spares_others (hi : h.Inhabits t) (data : Bytes) :
    let written := h.writeAtomic t p data
    (∀ l f, t.get? l = some (.file f) →
      (∀ found, h.resolve t true p = .ok found → found.place ≠ l) →
      (∀ target found, h.writeTarget t p = .ok target →
        h.resolve t true (h.tempPath target) = .ok found → found.place ≠ l) →
      written.2.get? l = some (.file f)) ∧
    ((∀ target, h.writeTarget t p = .ok target →
        ∀ l q, h.look t false (h.tempPath target) ≠ .ok (l, .link q)) →
      (∀ l f, t.get? l = some (.file f) →
        (∀ found, h.resolve t true p = .ok found → found.place ≠ l) →
        (∀ target, h.writeTarget t p = .ok target →
          h.look t false (h.tempPath target) ≠ .ok (l, .file f)) →
        written.2.get? l = some (.file f)) ∧
      (∀ e, written.1 = .error e → ∀ l f, h.look t true p = .ok (l, .file f) →
        written.2.get? l = some (.file f)) ∧
      (written.1 = .ok () → ∃ found f, h.resolve t true p = .ok found ∧ f.data = data ∧
        written.2.get? found.place = some (.file f) ∧
        h.look written.2 true p = .ok (found.place, .file f))) := by
  intro written
  refine ⟨fun l f hf hother htemp => get?_writeAtomic_other hi hf hother htemp data, ?_⟩
  intro hno
  constructor
  · intro l f hf hother htemp
    refine get?_writeAtomic_other hi hf hother ?_ data
    rintro target found ht hr rfl
    exact htemp target ht (look_of_resolve (resolve_unfollowed hr (hno target ht)) hf)
  rcases writeAtomic_cases hi hno data with ⟨e, he⟩ | ⟨target, dir, name, ht, hs, hcases⟩
  · have hwritten : written = (.error e, t) := he
    rw [hwritten]
    constructor
    · intro _ _ l f hl
      exact get?_of_look hl
    · intro hok
      cases hok
  rcases hcases with ⟨e, t', he, hget⟩ | ⟨found, f, t', hdone, hr, hp, hdata, hw⟩
  · have hwritten : written = (.error e, t') := he
    rw [hwritten]
    constructor
    · intro _ _ l f hl
      rw [hget]
      exact hs.get?_erase_target ht hl
    · intro hok
      cases hok
  · have hwritten : written = (.ok (), t') := hdone
    rw [hwritten]
    constructor
    · intro e he
      cases he
    · intro _
      exact ⟨found, f, hr, hdata, hw.get?_place, hs.look_replaced hr hp hw⟩

/-- A file that has the temporary name is used up by the write, and that is all. -/
theorem writeAtomic_over_leftover :
    let h : Host := ⟨[], 7, 0o022⟩
    let a : Name := ⟨[0x61], by decide⟩
    let b : Name := ⟨[0x62], by decide⟩
    let temp : Name := ⟨h.tempName a.bytes, by decide +kernel⟩
    let file (serial : Nat) : Node := .file ⟨serial, 0o640, [0x64]⟩
    let t := ((Tree.empty.put [] a (file 0)).put [] b (file 1)).put [] temp (file 2)
    let p : Path := ⟨a.bytes⟩
    let written := h.writeAtomic t p [0x63]
    h.Inhabits t ∧
      (∀ target, h.writeTarget t p = .ok target →
        ∀ l q, h.look t false (h.tempPath target) ≠ .ok (l, .link q)) ∧
      written.2.get? [b] = some (file 1) ∧ written.2.get? [temp] = none ∧
      ∃ found f, h.resolve t true p = .ok found ∧ f.data = [0x63] ∧
        written.2.get? found.place = some (.file f) ∧
        h.look written.2 true p = .ok (found.place, .file f) := by
  intro h a b temp file t p written
  have hi : h.Inhabits t := by decide +kernel
  have htarget : h.writeTarget t p = .ok p := by decide +kernel
  have htemp : h.look t false (h.tempPath p) = .ok ([temp], file 2) := by decide +kernel
  have hno : ∀ target, h.writeTarget t p = .ok target →
      ∀ l q, h.look t false (h.tempPath target) ≠ .ok (l, .link q) := by
    intro target ht l q hl
    obtain rfl := Except.ok.inj (htarget.symm.trans ht)
    cases htemp.symm.trans hl
  have hplace : h.look t true p = .ok ([a], file 0) := by decide +kernel
  obtain ⟨hothers, -, hdone⟩ := (writeAtomic_spares_others hi [0x63]).2 hno
  refine ⟨hi, hno, hothers [b] _ (by decide +kernel) ?_ ?_, by decide +kernel,
    hdone (by decide +kernel)⟩
  · intro found hr heq
    obtain ⟨spare, hr'⟩ := look_eq_ok_iff.mp hplace
    obtain rfl := Except.ok.inj (hr'.symm.trans hr)
    have heq : [a] = [b] := heq
    exact absurd heq (by decide)
  · intro target ht hl
    obtain rfl := Except.ok.inj (htarget.symm.trans ht)
    have heq : [temp] = [b] := (Prod.mk.inj (Except.ok.inj (htemp.symm.trans hl))).1
    exact absurd heq (by decide +kernel)

/-- A link that has the temporary name is followed: the file behind it gets the data and the
permission bits, and the link takes the place of the target. -/
theorem writeAtomic_follows_temp_link :
    let h : Host := ⟨[], 7, 0o022⟩
    let a : Name := ⟨[0x61], by decide⟩
    let v : Name := ⟨[0x76], by decide⟩
    let temp : Name := ⟨h.tempName a.bytes, by decide +kernel⟩
    let t := ((Tree.empty.put [] a (.file ⟨0, 0o640, [0x64]⟩)).put [] v
      (.file ⟨1, 0o600, [0x56]⟩)).put [] temp (.link ⟨v.bytes⟩)
    let p : Path := ⟨a.bytes⟩
    let written := h.writeAtomic t p [0x63]
    h.Inhabits t ∧ h.writeTarget t p = .ok p ∧
      h.look t true p = .ok ([a], .file ⟨0, 0o640, [0x64]⟩) ∧
      h.look t false (h.tempPath p) = .ok ([temp], .link ⟨v.bytes⟩) ∧
      t.get? [v] = some (.file ⟨1, 0o600, [0x56]⟩) ∧ written.1 = .ok () ∧
      written.2.get? [v] = some (.file ⟨1, 0o640, [0x63]⟩) ∧
      written.2.get? [a] = some (.link ⟨v.bytes⟩) := by
  decide +kernel

end Host

end MarkerSweep
