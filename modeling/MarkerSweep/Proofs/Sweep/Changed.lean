import MarkerSweep.Proofs.Sweep.Removed
import Mathlib.Tactic.TFAE

/-!
# Whether a sweep changes a text

That a text was changed can be seen from the number of tokens, from the text itself, from its
length, or from where tokens open in it. `sweep_unchanged_tfae` shows that all of these tell the
same, and how much shorter a changed text is at least.
-/

namespace MarkerSweep

open Text

namespace Cut

theorem kept_sublist (cut : Cut) : cut.kept.Sublist cut.source := by
  induction cut with
  | rest gap => exact List.Sublist.refl gap
  | token gap tok behind ih =>
    have hbehind : behind.kept.Sublist (tok ++ behind.source) :=
      ih.trans (List.sublist_append_right tok behind.source)
    exact (List.Sublist.refl gap).append hbehind

theorem kept_of_count_eq_zero {cut : Cut} (h : cut.count = 0) : cut.kept = cut.source := by
  cases cut with
  | rest gap => rfl
  | token gap tok behind => cases h

theorem Proper.count_eq_zero_iff {marker : List Char} {cut : Cut} (h : cut.Proper marker) :
    cut.count = 0 ↔ ∀ i, ¬ Opens marker (cut.source.drop i) := by
  constructor
  · intro hzero i ho
    have hpos := h.count_pos ho
    omega
  · intro hno
    have hsweep := sweep_of_proper h
    rw [sweep_eq_self hno] at hsweep
    exact (congrArg Swept.removed hsweep).symm

end Cut

/-- All ways to see whether a sweep changed a text agree. Each token takes at least as many bytes as
its marker and two more, and nothing is put into the text. -/
theorem sweep_unchanged_tfae {marker : String} {m : Marker} (hm : Marker.ofText? marker = .ok m)
    (text : List Char) :
    [(m.sweep text).removed = 0, (m.sweep text).isBorrowed = true, (m.sweep text).text = text,
      (m.sweep text).text.length = text.length,
      (Utf8.encode (m.sweep text).text).length = (Utf8.encode text).length,
      ∀ i, ¬ Opens marker.toList (text.drop i)].TFAE ∧
    (Utf8.encode (m.sweep text).text).length +
        (m.sweep text).removed * (marker.utf8ByteSize + 2) ≤ (Utf8.encode text).length ∧
    (m.sweep text).text.Sublist text := by
  obtain rfl := Marker.text_of_ofText? hm
  obtain ⟨cut, hp, rfl, hsweep⟩ := exists_proper_cut m.text.toList text
  have hsweep : m.sweep cut.source = ⟨cut.kept, cut.count⟩ := hsweep
  rw [hsweep]
  refine ⟨?_, ?_, cut.kept_sublist⟩
  · tfae_have 1 ↔ 2 := by simp [Swept.isBorrowed]
    tfae_have 1 → 3 := Cut.kept_of_count_eq_zero
    tfae_have 3 → 4 := congrArg List.length
    tfae_have 4 → 3 := cut.kept_sublist.eq_of_length
    tfae_have 3 → 5 := congrArg fun text => (Utf8.encode text).length
    tfae_have 5 → 1 := hp.count_eq_zero_of_length
    tfae_have 1 ↔ 6 := hp.count_eq_zero_iff
    tfae_finish
  · rw [← Utf8.length_ofString]
    exact hp.encode_length_le

/-- Two tokens of a marker with more bytes than characters and a space in it, as short as they can
be: the bound is met. -/
theorem sweep_shortest_tokens :
    let m : Marker := ⟨"é ", by decide, by decide⟩
    let text := " é x é y".toList
    Marker.ofText? "é " = .ok m ∧ m.sweep text = ⟨[], 2⟩ ∧ "é ".utf8ByteSize = 3 ∧
      (Utf8.encode text).length = 10 ∧
      [(m.sweep text).removed = 0, (m.sweep text).isBorrowed = true, (m.sweep text).text = text,
        (m.sweep text).text.length = text.length,
        (Utf8.encode (m.sweep text).text).length = (Utf8.encode text).length,
        ∀ i, ¬ Opens "é ".toList (text.drop i)].TFAE ∧
      (Utf8.encode (m.sweep text).text).length +
          (m.sweep text).removed * ("é ".utf8ByteSize + 2) ≤ (Utf8.encode text).length ∧
      (m.sweep text).text.Sublist text := by
  intro m text
  have hm : Marker.ofText? "é " = .ok m := Marker.ofText?_text m
  exact ⟨hm, by decide, by decide, by decide +kernel, sweep_unchanged_tfae hm text⟩

end MarkerSweep
