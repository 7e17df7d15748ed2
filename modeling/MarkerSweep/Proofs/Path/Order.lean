import MarkerSweep.Path.Order
import MarkerSweep.Proofs.Path.Parts
import MarkerSweep.Proofs.Text.Lossy
import Mathlib.Order.Defs.LinearOrder

/-!
# Paths that compare as equal

Neither the components of a path nor its display tell how it is spelled, but the two together do:
`key_injective`. A display cut at its slashes shows the parts one by one (`map_lossy_parts`), so it
tells where the parts are that do not count as components. The order of paths is total, and paths
can be sorted in one way only.
-/

namespace MarkerSweep.Path

open Utf8

/-! ### Parts and what is shown of them -/

theorem lossy_joinSlash (parts : List Bytes) :
    lossy (joinSlash parts) = ['/'].intercalate (parts.map lossy) := by
  have hslash : slash.toNat < 0x80 := by decide
  induction parts with
  | nil => rfl
  | cons part parts ih =>
    cases parts with
    | nil => simp [joinSlash]
    | cons next parts =>
      rw [joinSlash_cons, lossy_append hslash, lossy_cons hslash, ih, List.map_cons, List.map_cons,
        List.map_cons, List.intercalate_cons_cons, List.append_assoc]
      rfl

theorem slash_not_mem_lossy {part : Bytes} (h : slash ∉ part) : '/' ∉ lossy part :=
  fun hm => h (mem_of_mem_lossy (by decide) hm)

/-- The display of a path, cut at its slashes, shows the parts of the path. -/
theorem map_lossy_parts (p : Path) : p.parts.map lossy = (lossy p.bytes).splitOn '/' := by
  have hcut := lossy_joinSlash p.parts
  rw [parts, joinSlash_splitSlash] at hcut
  rw [hcut, parts, List.splitOn_intercalate]
  · intro shown hshown
    obtain ⟨part, hpart, rfl⟩ := List.mem_map.mp hshown
    exact slash_not_mem_lossy (slash_not_mem_of_mem_splitSlash hpart)
  · simpa using splitSlash_ne_nil p.bytes

theorem eq_of_isInert {part other : Bytes} (hpart : isInert part = true)
    (h : lossy part = lossy other) : part = other := by
  have hshown : '\uFFFD' ∉ lossy part := by
    simp only [isInert, Bool.or_eq_true, beq_iff_eq] at hpart
    rcases hpart with rfl | rfl <;> decide
  rw [← encode_lossy hshown, h, encode_lossy (h ▸ hshown)]

/-- How a component is spelled. -/
def Component.part : Component → Bytes
  | .root => []
  | .current => [dot]
  | .parent => [dot, dot]
  | .normal name => name

theorem innerComponent?_eq_none_iff {part : Bytes} :
    innerComponent? part = none ↔ isInert part = true := by
  unfold innerComponent?
  split
  · next h => simp [h]
  · next h => split <;> simp [h]

theorem part_of_innerComponent? {part : Bytes} {c : Component} (h : innerComponent? part = some c) :
    c.part = part := by
  unfold innerComponent? at h
  split at h
  · cases h
  · split at h
    · next hdots =>
      cases h
      exact hdots.symm
    · cases h
      rfl

/-- Parts are settled by how they are shown together with those that count as components. -/
theorem parts_unique {first second : List Bytes} (hshown : first.map lossy = second.map lossy)
    (hinner : first.filterMap innerComponent? = second.filterMap innerComponent?) :
    first = second := by
  induction first generalizing second with
  | nil => exact (List.map_eq_nil_iff.mp hshown.symm).symm
  | cons part first ih =>
    cases second with
    | nil => cases hshown
    | cons other second =>
      obtain ⟨hhead, htail⟩ := List.cons.inj hshown
      cases hpart : innerComponent? part with
      | none =>
        obtain rfl := eq_of_isInert (innerComponent?_eq_none_iff.mp hpart) hhead
        rw [List.filterMap_cons_none hpart, List.filterMap_cons_none hpart] at hinner
        rw [ih htail hinner]
      | some c =>
        cases hother : innerComponent? other with
        | none =>
          obtain rfl := eq_of_isInert (innerComponent?_eq_none_iff.mp hother) hhead.symm
          rw [hother] at hpart
          cases hpart
        | some d =>
          rw [List.filterMap_cons_some hpart, List.filterMap_cons_some hother] at hinner
          obtain ⟨rfl, hrest⟩ := List.cons.inj hinner
          rw [← part_of_innerComponent? hpart, part_of_innerComponent? hother, ih htail hrest]

/-- The parts that count are what is between the first component, if it is a slash or a full stop,
and the end. -/
theorem filterMap_parts (p : Path) :
    p.parts.filterMap innerComponent? = p.components.filter fun c => c ≠ .root ∧ c ≠ .current := by
  have hinner (parts : List Bytes) :
      (parts.filterMap innerComponent?).filter (fun c => c ≠ .root ∧ c ≠ .current) =
        parts.filterMap innerComponent? := by
    apply List.filter_eq_self.mpr
    intro c hc
    obtain ⟨part, -, hpart⟩ := List.mem_filterMap.mp hc
    unfold innerComponent? at hpart
    split at hpart
    · cases hpart
    · split at hpart <;> cases hpart <;> rfl
  unfold components
  split
  · rw [List.filter_cons_of_neg (by simp), hinner]
  · cases p.parts with
    | nil => rfl
    | cons first rest =>
      simp only
      split
      · next hdot =>
        have hnone : innerComponent? first = none := by
          rw [hdot]
          rfl
        rw [List.filter_cons_of_neg (by simp), hinner, List.filterMap_cons_none hnone]
      · rw [hinner]

theorem key_injective : Function.Injective key := by
  intro p q h
  obtain ⟨hcomponents, hshown⟩ := Key.mk.inj h
  have hparts : p.parts = q.parts := by
    apply parts_unique
    · rw [map_lossy_parts, map_lossy_parts, hshown]
    · rw [filterMap_parts, filterMap_parts, hcomponents]
  have hbytes : p.bytes = q.bytes := by
    rw [← joinSlash_splitSlash p.bytes, ← joinSlash_splitSlash q.bytes]
    exact congrArg joinSlash hparts
  cases p
  cases q
  exact congrArg Path.mk hbytes

theorem same_iff {p q : Path} : p.same q = true ↔ p = q := by
  rw [same, beq_iff_eq]
  exact key_injective.eq_iff

/-! ### The order -/

instance : Std.TransCmp compareBytes :=
  inferInstanceAs (Std.TransCmp (List.compareLex compare))

instance : Std.LawfulEqCmp compareBytes :=
  inferInstanceAs (Std.LawfulEqCmp (List.compareLex compare))

theorem Component.compare_eq :
    Component.compare = compareLex (compareOn rank) (Ordering.byKey part compareBytes) := by
  funext a b
  cases a <;> cases b <;> rfl

instance : Std.TransCmp Component.compare := by
  rw [Component.compare_eq]
  infer_instance

instance : Std.LawfulEqCmp Component.compare where
  compare_self {a} := by cases a <;> simp [Component.compare]
  eq_of_compare {a b} h := by
    cases a <;> cases b <;> simp_all [Component.compare, Component.rank]

instance : Std.TransCmp Key.compare :=
  inferInstanceAs (Std.TransCmp (compareLex
    (Ordering.byKey Key.components (List.compareLex Component.compare))
    (Ordering.byKey Key.shown (List.compareLex Ord.compare))))

instance : Std.LawfulEqCmp Key.compare where
  compare_self {a} := by simp [Key.compare, Std.ReflCmp.compare_self]
  eq_of_compare {a b} h := by
    obtain ⟨hcomponents, hshown⟩ := Ordering.then_eq_eq.mp h
    cases a
    cases b
    rw [Key.mk.injEq]
    exact ⟨Std.LawfulEqCmp.eq_of_compare hcomponents, Std.LawfulEqCmp.eq_of_compare hshown⟩

instance : Std.TransCmp Path.compare :=
  inferInstanceAs (Std.TransCmp (Ordering.byKey key Key.compare))

instance : Std.LawfulEqCmp Path.compare where
  compare_self {p} := show p.key.compare p.key = .eq from Std.ReflCmp.compare_self
  eq_of_compare h := key_injective (Std.LawfulEqCmp.eq_of_compare h)

/-! ### Sorting -/

theorem isLE_compare_total (p q : Path) :
    (p.compare q).isLE = true ∨ (q.compare p).isLE = true := by
  have hswap : q.compare p = (p.compare q).swap := Std.OrientedCmp.eq_swap
  rw [hswap]
  cases p.compare q <;> simp

theorem eq_of_isLE_compare {p q : Path} (hpq : (p.compare q).isLE = true)
    (hqp : (q.compare p).isLE = true) : p = q :=
  Std.LawfulEqCmp.eq_of_compare (Std.OrientedCmp.isLE_antisymm hpq hqp)

/-- The positions that sorting gives are those of the paths of a sorted list. -/
theorem exists_sorted (paths : List Path) :
    ∃ sorted : List Path, (sortedPositions paths).map (paths[·]?) = sorted.map some ∧
      sorted.Perm paths ∧ sorted.Pairwise fun p q => (p.compare q).isLE = true := by
  let ranked := paths.zipIdx.mergeSort fun a b => (a.1.compare b.1).isLE
  have hperm : ranked.Perm paths.zipIdx := List.mergeSort_perm _ _
  have hpositions : sortedPositions paths = ranked.map Prod.snd := by
    have hranked : ranked.map (Prod.map key id) = (paths.map key).zipIdx.mergeSort
        fun a b => (a.1.compare b.1).isLE := by
      rw [List.zipIdx_map]
      exact List.map_mergeSort fun _ _ _ _ => rfl
    rw [sortedPositions, Key.sortedPositions, ← hranked, List.map_map]
    rfl
  refine ⟨ranked.map Prod.fst, ?_, ?_, ?_⟩
  · rw [hpositions, List.map_map, List.map_map]
    apply List.map_congr_left
    rintro ⟨p, i⟩ hmem
    exact List.mk_mem_zipIdx_iff_getElem?.mp (hperm.mem_iff.mp hmem)
  · have hfirst := hperm.map Prod.fst
    rwa [List.zipIdx_map_fst] at hfirst
  · apply List.pairwise_map.mpr
    apply List.pairwise_mergeSort
    · intro a b c
      exact Std.TransCmp.isLE_trans
    · intro a b
      rw [Bool.or_eq_true]
      exact isLE_compare_total a.1 b.1

/-- Paths are the same if they are spelled alike, byte by byte, and only then. Their order is total,
and a list of them can be sorted in one way only. -/
theorem order_of_spellings :
    (∀ a b : Bytes, same ⟨a⟩ ⟨b⟩ = true ↔ a = b) ∧
      (∀ a b : Bytes, Path.compare ⟨a⟩ ⟨b⟩ = .eq ↔ a = b) ∧
      (∀ p q : Path, p.compare q = (q.compare p).swap) ∧
      (∀ p : Path, (p.compare p).isLE = true) ∧
      (∀ p q : Path, (p.compare q).isLE = true ∨ (q.compare p).isLE = true) ∧
      (∀ p q r : Path, (p.compare q).isLE = true → (q.compare r).isLE = true →
        (p.compare r).isLE = true) ∧
      ∀ paths : List Path, ∃ sorted : List Path,
        (sortedPositions paths).map (paths[·]?) = sorted.map some ∧
        sorted.Perm paths ∧ sorted.Pairwise (fun p q => (p.compare q).isLE = true) ∧
        ∀ other : List Path, other.Perm paths →
          other.Pairwise (fun p q => (p.compare q).isLE = true) → other = sorted := by
  have hbytes (a b : Bytes) : (⟨a⟩ : Path) = ⟨b⟩ ↔ a = b := by rw [Path.mk.injEq]
  refine ⟨fun a b => same_iff.trans (hbytes a b),
    fun a b => Std.LawfulEqCmp.compare_eq_iff_eq.trans (hbytes a b),
    fun p q => Std.OrientedCmp.eq_swap, fun p => ?_, isLE_compare_total,
    fun p q r => Std.TransCmp.isLE_trans, fun paths => ?_⟩
  · have hself : p.compare p = .eq := Std.ReflCmp.compare_self
    rw [hself]
    rfl
  · obtain ⟨sorted, hpositions, hperm, hsorted⟩ := exists_sorted paths
    refine ⟨sorted, hpositions, hperm, hsorted, fun other hother hordered => ?_⟩
    have hanti : ∀ p q : Path, p ∈ other → q ∈ sorted → (p.compare q).isLE = true →
        (q.compare p).isLE = true → p = q := fun p q _ _ => eq_of_isLE_compare
    exact List.Perm.eq_of_pairwise hanti hordered hsorted (hother.trans hperm.symm)

/-- Two paths with the same components and two with the same display, in the one order that they
can be sorted in. -/
theorem sorted_among_spelled_alike :
    let doubled := Path.ofString "a//b"
    let single := Path.ofString "a/b"
    let high : Path := ⟨[0x61, 0xFF]⟩
    let low : Path := ⟨[0x61, 0xFE]⟩
    let paths := [high, single, low, doubled]
    let sorted := [doubled, single, low, high]
    doubled.components = single.components ∧ high.display = low.display ∧
      doubled.same single = false ∧ high.same low = false ∧
      (sortedPositions paths).map (paths[·]?) = sorted.map some ∧
      ∀ other : List Path, other.Perm paths →
        other.Pairwise (fun p q => (p.compare q).isLE = true) → other = sorted := by
  intro doubled single high low paths sorted
  obtain ⟨hsame, -, -, -, -, -, hsort⟩ := order_of_spellings
  refine ⟨by decide, by decide +kernel, ?_, ?_, ?_⟩
  · exact Bool.eq_false_iff.mpr fun h => absurd ((hsame _ _).mp h) (by decide)
  · exact Bool.eq_false_iff.mpr fun h => absurd ((hsame _ _).mp h) (by decide)
  · obtain ⟨_, hmap, -, -, hunique⟩ := hsort paths
    obtain rfl := hunique sorted (by decide +kernel) (by decide +kernel)
    exact ⟨hmap, hunique⟩

end MarkerSweep.Path
