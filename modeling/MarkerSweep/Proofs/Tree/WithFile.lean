import MarkerSweep.Proofs.Tree.Lookup

/-!
# Trees with another file

The frame of a change of one file: `WithFile` says what a tree is after it, and
`WithFile.resolve` that paths lead where they led.
-/

namespace MarkerSweep

namespace Tree

/-- `t'` is `t` with the file `f` at `place`, whatever was there before. -/
def WithFile (t : Tree) (place : Location) (f : File) (t' : Tree) : Prop :=
  ∀ l, t'.get? l = if l = place then some (.file f) else t.get? l

/-- There is nothing at `place`, or a file. -/
def Replaceable (t : Tree) (place : Location) : Prop :=
  ∀ node, t.get? place = some node → ∃ f, node = .file f

variable {t t' : Tree} {dir : Location} {place : Location} {name : Name} {f : File}

theorem withFile_put (t : Tree) (dir : Location) (name : Name) (f : File) :
    t.WithFile (name :: dir) f (t.put dir name (.file f)) :=
  get?_put t dir name (.file f)

theorem WithFile.get?_place (h : t.WithFile place f t') : t'.get? place = some (.file f) := by
  rw [h, if_pos rfl]

theorem WithFile.get?_other (h : t.WithFile place f t') {l : Location} (hl : l ≠ place) :
    t'.get? l = t.get? l := by
  rw [h, if_neg hl]

theorem replaceable_of_none (h : t.get? place = none) : t.Replaceable place := by
  intro node hn
  rw [h] at hn
  cases hn

theorem WithFile.carries (h : t.WithFile place f t') (hp : t.Replaceable place) :
    t.Carries t' := by
  intro l node hn hnode
  rw [h]
  split
  · next hl =>
    subst hl
    obtain ⟨old, rfl⟩ := hp node hn
    exact absurd rfl (hnode old)
  · exact hn

theorem WithFile.carries_back (h : t.WithFile place f t') : t'.Carries t := by
  intro l node hn hnode
  rw [h] at hn
  split at hn
  · exact absurd (Option.some.inj hn).symm (hnode f)
  · exact hn

theorem WithFile.rooted (h : t.WithFile place f t') (hr : t.Rooted) (hp : t.Replaceable place)
    (htail : t.get? place.tail = some .directory) : t'.Rooted := by
  intro name dir hn
  have hdir : t.get? dir = some .directory := by
    rw [h] at hn
    split at hn
    · next hl => rw [← hl] at htail; exact htail
    · exact hr name dir hn
  exact h.carries hp dir .directory hdir (by simp)

/-! ### Changing a file in place -/

theorem replace_of_not_mem {entries : List Placed} (h : place ∉ entries.map Placed.place)
    (node : Node) : replace place node entries = entries := by
  simp only [replace]
  refine (List.map_congr_left fun e he => if_neg ?_).trans (List.map_id _)
  rw [Placed.isAt_iff]
  exact fun hp => h (hp ▸ List.mem_map_of_mem he)

theorem replace_replace (place : Location) (node node' : Node) (entries : List Placed) :
    replace place node' (replace place node entries) = replace place node' entries := by
  simp only [replace, List.map_map]
  refine List.map_congr_left fun e _ => ?_
  simp only [Function.comp]
  by_cases h : e.isAt place.length place = true
  · have hw : (e.withNode node).isAt place.length place = true := h
    rw [if_pos h, if_pos hw, if_pos h]
    rfl
  · rw [if_neg h, if_neg h]

theorem put_put (t : Tree) (dir : Location) (name : Name) (node node' : Node) :
    (t.put dir name node).put dir name node' = t.put dir name node' := by
  have hc : (t.put dir name node).contains (name :: dir) = true := by
    rw [contains_iff, mem_map_place_iff, get?_put, if_pos rfl]
    simp
  suffices hentries :
      replace (name :: dir) node' (t.put dir name node).entries = (t.put dir name node').entries by
    rw [put, dif_pos hc]
    simp only [hentries]
  by_cases h : t.contains (name :: dir) = true
  · simp only [put, dif_pos h, replace_replace]
  · have hm : name :: dir ∉ t.entries.map Placed.place := by rwa [contains_iff] at h
    have hsplit (place : Location) (node : Node) (front back : List Placed) :
        replace place node (front ++ back) = replace place node front ++ replace place node back :=
      List.map_append
    simp only [put, dif_neg h, hsplit, replace_of_not_mem hm]
    simp [replace, Placed.put, Placed.isAt, Placed.withNode]

theorem modifyFile_put (t : Tree) (dir : Location) (name : Name) (f : File)
    (change : File → File) :
    (t.put dir name (.file f)).modifyFile (name :: dir) change =
      t.put dir name (.file (change f)) := by
  have hget : (t.put dir name (.file f)).get? (name :: dir) = some (.file f) :=
    (withFile_put t dir name f).get?_place
  simp only [modifyFile, hget, put_put]

theorem get?_erase_ne {l : Location} (h : l ≠ place) : (t.erase place).get? l = t.get? l := by
  cases l with
  | nil => rfl
  | cons name dir => exact (lookup_filter_isAt t.entries place (name :: dir)).trans (if_neg h)

theorem get?_erase_put (t : Tree) (dir : Location) (name : Name) (node : Node) (l : Location) :
    ((t.put dir name node).erase (name :: dir)).get? l = (t.erase (name :: dir)).get? l := by
  rw [get?_erase, get?_erase, get?_put]
  split
  · rfl
  · rfl

/-- Moving a file to another place: where it was, nothing is left. -/
theorem withFile_move (t : Tree) (dir : Location) (name : Name) (dir' : Location) (name' : Name)
    (f : File) :
    (t.erase (name :: dir)).WithFile (name' :: dir') f
      (((t.put dir name (.file f)).erase (name :: dir)).put dir' name' (.file f)) := by
  intro l
  rw [get?_put, get?_erase_put]

theorem WithFile.of_erase (hn : t.get? (name :: dir) = none)
    (h : (t.erase (name :: dir)).WithFile place f t') : t.WithFile place f t' := by
  intro l
  rw [h]
  by_cases hl : l = name :: dir
  · rw [hl, get?_erase, if_pos rfl, hn]
  · rw [get?_erase_ne hl]

end Tree

theorem Tree.WithFile.inhabits {h : Host} {t t' : Tree} {place : Location} {f : File}
    (hw : t.WithFile place f t') (hi : h.Inhabits t) (hp : t.Replaceable place)
    (htail : t.get? place.tail = some .directory) : h.Inhabits t' :=
  ⟨hw.rooted hi.rooted hp htail, hw.carries hp _ _ hi.cwd (by simp)⟩

/-- A change of one file does not change where paths lead. -/
theorem Tree.WithFile.resolve {h : Host} {t t' : Tree} {place : Location} {f : File}
    {followLast : Bool} {p : Path} {found : Found} (hw : t.WithFile place f t')
    (hi : h.Inhabits t) (hp : t.Replaceable place) (hr : h.resolve t followLast p = .ok found) :
    ∃ found', h.resolve t' followLast p = .ok found' ∧ found'.place = found.place := by
  refine Host.resolve_carried hi (hw.carries hp) hr fun node hn => ?_
  rw [hw] at hn
  split at hn
  · exact .inl ⟨f, (Option.some.inj hn).symm⟩
  · exact .inr hn

theorem Tree.WithFile.resolve_back {h : Host} {t t' : Tree} {place : Location} {f : File}
    {followLast : Bool} {p : Path} {found : Found} (hw : t.WithFile place f t')
    (hi : h.Inhabits t') (hne : found.place ≠ place)
    (hr : h.resolve t' followLast p = .ok found) :
    ∃ found', h.resolve t followLast p = .ok found' ∧ found'.place = found.place := by
  refine Host.resolve_carried hi hw.carries_back hr fun node hn => .inr ?_
  rwa [hw.get?_other hne]

end MarkerSweep
