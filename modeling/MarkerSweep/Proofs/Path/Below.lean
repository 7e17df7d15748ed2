import MarkerSweep.Proofs.Path.Parts
import Mathlib.Data.List.Basic

/-!
# Paths below a root

`Path.below` is how the path of an entry below a root is spelled. `below_cons` and `below_concat`
say how it grows at its two ends, and `below_injective` that the names can be read off it.
-/

namespace MarkerSweep

theorem Name.bytes_injective : Function.Injective Name.bytes := by
  rintro ⟨a, ha⟩ ⟨b, hb⟩ h
  obtain rfl : a = b := h
  rfl

theorem Name.zero_not_mem (name : Name) : 0 ∉ name.bytes := by
  have h := name.isName_bytes
  simp only [isName, Bool.and_eq_true, Bool.not_eq_true', List.contains_eq_mem,
    decide_eq_false_iff_not] at h
  exact h.1.2

namespace Path

/-- The path that names lead to from a root: the root as it is spelled, a slash unless it ends in
one, and the names with slashes between them. -/
def below (root : Path) : List Name → Path
  | [] => root
  | name :: names =>
    ⟨root.bytes ++ ((if root.endsInSlash then [] else [slash]) ++
      joinSlash ((name :: names).map Name.bytes))⟩

theorem join_of_ne_nil {p : Path} (hp : p.bytes ≠ []) (name : Bytes) :
    p.join name = ⟨p.bytes ++ ((if p.endsInSlash then [] else [slash]) ++ name)⟩ := by
  unfold join
  have hempty : p.bytes.isEmpty = false := by simpa using hp
  rw [hempty, Bool.false_or]
  by_cases h : p.endsInSlash = true
  · simp [h]
  · simp [h]

theorem join_ne_nil (p : Path) (name : Name) : (p.join name.bytes).bytes ≠ [] := by
  have hname := name.bytes_ne_nil
  unfold join
  split <;> simp [hname]

theorem below_cons {root : Path} (hr : root.bytes ≠ []) (name : Name) (names : List Name) :
    (root.join name.bytes).below names = root.below (name :: names) := by
  cases names with
  | nil =>
    show root.join name.bytes = _
    rw [join_of_ne_nil hr, below]
    simp [joinSlash, List.intercalate]
  | cons next names =>
    have hslash := endsInSlash_join root name.bytes_ne_nil name.slash_not_mem
    rw [below, hslash, join_of_ne_nil hr, below, List.map_cons, List.map_cons, List.map_cons,
      joinSlash_cons]
    simp

theorem below_concat {root : Path} (hr : root.bytes ≠ []) (names : List Name) (name : Name) :
    root.below (names ++ [name]) = (root.below names).join name.bytes := by
  induction names generalizing root with
  | nil => exact (below_cons hr name []).symm
  | cons first names ih =>
    rw [List.cons_append, ← below_cons hr, ← below_cons hr]
    exact ih (root.join_ne_nil first)

theorem joinSlash_injective {ns ms : List Name} (hn : ns ≠ []) (hm : ms ≠ [])
    (h : joinSlash (ns.map Name.bytes) = joinSlash (ms.map Name.bytes)) : ns = ms := by
  have hsplit : ∀ names : List Name, names ≠ [] →
      splitSlash (joinSlash (names.map Name.bytes)) = names.map Name.bytes := by
    intro names hne
    apply splitSlash_joinSlash (by simpa using hne)
    intro part hp
    obtain ⟨name, -, rfl⟩ := List.mem_map.mp hp
    exact name.slash_not_mem
  apply List.map_injective_iff.mpr Name.bytes_injective
  rw [← hsplit ns hn, h, hsplit ms hm]

theorem below_ne_self (root : Path) (name : Name) (names : List Name) :
    root.below (name :: names) ≠ root := by
  intro h
  have hlen := congrArg (fun p : Path => p.bytes.length) h
  simp only [below, List.length_append] at hlen
  have hzero : (joinSlash ((name :: names).map Name.bytes)).length = 0 := by omega
  cases names with
  | nil => exact name.bytes_ne_nil (by simpa [joinSlash, List.intercalate] using hzero)
  | cons next names =>
    rw [List.map_cons, List.map_cons, joinSlash_cons] at hzero
    simp at hzero

theorem below_injective {root : Path} {ns ms : List Name} (h : root.below ns = root.below ms) :
    ns = ms := by
  cases ns with
  | nil =>
    cases ms with
    | nil => rfl
    | cons m ms => exact absurd h.symm (below_ne_self root m ms)
  | cons n ns =>
    cases ms with
    | nil => exact absurd h (below_ne_self root n ns)
    | cons m ms =>
      apply joinSlash_injective (List.cons_ne_nil n ns) (List.cons_ne_nil m ms)
      exact List.append_cancel_left (List.append_cancel_left (Path.mk.inj h))

end Path

end MarkerSweep
