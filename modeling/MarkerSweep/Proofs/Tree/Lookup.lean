import MarkerSweep.Proofs.Path.Parts
import MarkerSweep.Proofs.Tree.Rooted

/-!
# Looking up paths

What a host finds at a path, in a rooted tree that its working directory is in. `resolve_carried`
shows that a path leads to the same place after a change of files alone, `resolve_of_slot` that the
slot of a path is where the path leads, and `resolve_path` that the path of a location leads back
to it.
-/

namespace MarkerSweep

/-- The tree is rooted, and the working directory is in it. -/
structure Host.Inhabits (h : Host) (t : Tree) : Prop where
  rooted : t.Rooted
  cwd : t.get? h.cwd = some .directory

instance (h : Host) (t : Tree) : Decidable (h.Inhabits t) :=
  decidable_of_iff (t.Rooted ∧ t.get? h.cwd = some .directory)
    ⟨fun ⟨hr, hc⟩ => ⟨hr, hc⟩, fun hi => ⟨hi.rooted, hi.cwd⟩⟩

namespace Host

variable {h : Host} {t t' : Tree} {followLast : Bool} {p : Path} {found : Found}
  {dir place : Location} {name : Name} {node : Node}

theorem resolve_eq_ok_iff :
    h.resolve t followLast p = .ok found ↔
      p.spellingError? = none ∧
        t.Leads followLast Tree.maxLinks (p.start h.cwd) p.steps found := by
  unfold resolve
  split
  · next e he => simp [he]
  · next he => simp [he, Tree.follow_eq_ok_iff]

theorem look_eq_ok_iff :
    h.look t followLast p = .ok (place, node) ↔
      ∃ spare, h.resolve t followLast p = .ok (.present place node spare) := by
  unfold look
  constructor
  · intro hl
    split at hl
    · next hr => cases hl; exact ⟨_, hr⟩
    · cases hl
    · cases hl
  · rintro ⟨spare, hr⟩
    rw [hr]

theorem isDirectory_iff :
    h.isDirectory t p = true ↔ ∃ l, h.look t true p = .ok (l, .directory) := by
  unfold isDirectory
  split
  · next l hl => exact ⟨fun _ => ⟨l, hl⟩, fun _ => rfl⟩
  · next hno =>
    refine ⟨fun hf => absurd hf Bool.false_ne_true, ?_⟩
    rintro ⟨l, hl⟩
    exact absurd hl (hno l)

theorem Inhabits.start (hi : h.Inhabits t) (p : Path) :
    t.get? (p.start h.cwd) = some .directory :=
  Tree.get?_start p hi.cwd

theorem get?_of_resolve (hr : h.resolve t followLast p = .ok found) :
    t.get? found.place = found.node? :=
  (resolve_eq_ok_iff.mp hr).2.get?_place

theorem Inhabits.get?_tail (hi : h.Inhabits t) (hr : h.resolve t followLast p = .ok found) :
    t.get? found.place.tail = some .directory :=
  (resolve_eq_ok_iff.mp hr).2.get?_tail hi.rooted (hi.start p)

theorem look_of_resolve (hr : h.resolve t followLast p = .ok found)
    (hn : t.get? found.place = some node) : h.look t followLast p = .ok (found.place, node) := by
  rw [get?_of_resolve hr] at hn
  cases found with
  | present place node' spare =>
    obtain rfl := Option.some.inj hn
    exact look_eq_ok_iff.mpr ⟨spare, hr⟩
  | absent dir name => cases hn

theorem not_look_of_resolve (hr : h.resolve t followLast p = .ok found)
    (hn : t.get? found.place = none) (at_ : Location × Node) :
    h.look t followLast p ≠ .ok at_ := by
  intro hl
  obtain ⟨spare, hr'⟩ := look_eq_ok_iff.mp hl
  obtain rfl := Except.ok.inj (hr.symm.trans hr')
  rw [get?_of_resolve hr] at hn
  cases hn

theorem resolve_carried (hi : h.Inhabits t) (hc : t.Carries t')
    (hr : h.resolve t followLast p = .ok found)
    (hend : ∀ node, t'.get? found.place = some node →
      (∃ f, node = .file f) ∨ t.get? found.place = some node) :
    ∃ found', h.resolve t' followLast p = .ok found' ∧ found'.place = found.place := by
  obtain ⟨hp, hleads⟩ := resolve_eq_ok_iff.mp hr
  obtain ⟨found', h', hplace⟩ := hleads.carried hi.rooted (hi.start p) hc hend
  exact ⟨found', resolve_eq_ok_iff.mpr ⟨hp, h'⟩, hplace⟩

/-- Where nothing is found without following a link at the end, following it makes no difference. -/
theorem resolve_unfollowed (hr : h.resolve t true p = .ok found)
    (hno : ∀ place target, h.look t false p ≠ .ok (place, .link target)) :
    h.resolve t false p = .ok found := by
  obtain ⟨hp, hleads⟩ := resolve_eq_ok_iff.mp hr
  rcases hleads.unfollowed with h' | ⟨place, target, spare, h'⟩
  · exact resolve_eq_ok_iff.mpr ⟨hp, h'⟩
  · exact absurd (look_eq_ok_iff.mpr ⟨spare, resolve_eq_ok_iff.mpr ⟨hp, h'⟩⟩) (hno place target)

theorem node?_ne_link (hi : h.Inhabits t) (hr : h.resolve t true p = .ok found) (target : Path) :
    found.node? ≠ some (.link target) :=
  (resolve_eq_ok_iff.mp hr).2.node?_ne_link hi.rooted (hi.start p) target

/-! ### Slots -/

theorem slot_eq_ok (hi : h.Inhabits t) (hs : h.slot t p = .ok (dir, name)) :
    p.spellingError? = none ∧ ∃ first spare, p.filledParts = first ++ [name.bytes] ∧
      t.Leads true Tree.maxLinks (p.start h.cwd) (first.map Step.ofPart ++ [.stay])
        (.present dir .directory spare) := by
  unfold slot at hs
  split at hs
  · cases hs
  · next hp =>
    refine ⟨hp, ?_⟩
    split at hs
    · cases hs
    · next last hlast =>
      obtain ⟨first, hparts⟩ := List.getLast?_eq_some_iff.mp hlast
      simp only [hparts, List.dropLast_concat] at hs
      split at hs
      · cases hs
      · cases hs
      · next place node spare hf =>
        have hleads := Tree.follow_eq_ok_iff.mp hf
        -- The stay behind the first parts makes sure of a directory.
        obtain ⟨place', spare', hfound⟩ := hleads.directory_of_last hi.rooted (hi.start p)
          (by simp)
        cases hfound
        split at hs
        · cases hs
        · cases hs
        · cases hs
        · next name' hstep =>
          cases hs
          rw [Step.eq_ofPart_of_down hstep]
          exact ⟨first, spare, hparts, hleads⟩

/-- The slot of a path is where the path leads. -/
theorem resolve_of_slot (hi : h.Inhabits t) (hs : h.slot t p = .ok (dir, name))
    (hslash : p.endsInSlash = false)
    (hlink : followLast = false ∨ ∀ target, t.get? (name :: dir) ≠ some (.link target)) :
    ∃ found, h.resolve t followLast p = .ok found ∧ found.place = name :: dir := by
  obtain ⟨hp, first, spare, hparts, hleads⟩ := slot_eq_ok hi hs
  obtain ⟨found, hlast, hplace⟩ := Tree.exists_leads_name hlink
  have hsteps : p.steps = first.map Step.ofPart ++ [.down name] := by
    simp [Path.steps, hslash, hparts, Name.ofPart_bytes]
  refine ⟨found, resolve_eq_ok_iff.mpr ⟨hp, ?_⟩, hplace⟩
  rw [hsteps]
  exact hleads.goOn (List.cons_ne_nil _ _) hlast

/-- The path of a location that holds something leads to that location. -/
theorem resolve_path (hi : h.Inhabits t) {l : Location} (hl : t.get? l ≠ none)
    (hlink : ∀ target, t.get? l ≠ some (.link target))
    (hr : h.resolve t followLast l.path = .ok found) : found.place = l := by
  obtain ⟨-, hleads⟩ := resolve_eq_ok_iff.mp hr
  have hstart : l.path.start h.cwd = [] := by simp [Path.start, Path.isAbsolute, Location.path]
  have hparts := Location.filledParts_path l
  rw [hstart] at hleads
  cases l with
  | nil =>
    have hsteps : (Location.path []).steps = [.stay] := by
      rw [Path.steps, hparts]
      rfl
    rw [hsteps] at hleads
    cases hleads with
    | stay hleads =>
      cases hleads with
      | arrive _ => rfl
  | cons name dir =>
    have hsteps : (Location.path (name :: dir)).steps =
        dir.reverse.map Step.down ++ [.down name] := by
      simp [Path.steps, hparts, Location.endsInSlash_path, Name.ofPart_bytes, Function.comp_def]
    have hdir : t.get? dir = some .directory := hi.rooted name dir hl
    obtain ⟨found', hlast, hplace⟩ := Tree.exists_leads_name (.inr hlink)
    rw [hsteps] at hleads
    rw [hleads.unique (.down hi.rooted hdir hlast), hplace]

end Host

end MarkerSweep
