import MarkerSweep.Proofs.Sweep.Cut

/-!
# Tokens that a sweep makes

Where the marker has a delimiter in it that is no space, one sweep is not always enough: taking a
token out can bring the two halves of another together. `nested` is a text with a token inside a
token, and `sweep_nested` shows that a sweep takes the inner one alone.
-/

namespace MarkerSweep

open Text

/-- The token with the marker `initial ++ d :: final`, in which such a token stands in front of
`d`. -/
def nested (initial : List Char) (d : Char) (final : List Char) : Cut :=
  .token (' ' :: initial) (' ' :: (initial ++ d :: final ++ ['a']))
    (.rest (d :: final ++ ['a']))

theorem kept_nested (initial : List Char) (d : Char) (final : List Char) :
    (nested initial d final).kept = ' ' :: (initial ++ d :: final ++ ['a']) := by
  simp [nested, Cut.kept]

/-- A token opens only where the delimiter of the marker follows in its place. -/
theorem mem_of_opens {initial final front back : List Char} {d : Char} {i : Nat}
    (ho : Opens (initial ++ d :: final) ((front ++ back).drop i))
    (hlen : i + initial.length + 1 < front.length) : d ∈ front := by
  obtain ⟨c, rest, heq, -⟩ := ho
  have hget : (front ++ back)[i + (initial.length + 1)]? = some d := by
    rw [← List.getElem?_drop, heq]
    simp
  rw [List.getElem?_append_left (by omega)] at hget
  exact List.mem_of_getElem? hget

theorem not_opens_of_length_le {marker text : List Char} (h : text.length ≤ marker.length + 1) :
    ¬ Opens marker text := by
  rintro ⟨c, rest, rfl, -⟩
  simp only [List.length_cons, List.length_append] at h
  omega

theorem isToken_concat (marker : List Char) : IsToken marker (' ' :: (marker ++ ['a'])) := by
  refine ⟨['a'], rfl, List.cons_ne_nil _ _, ?_⟩
  intro c hc
  obtain rfl := List.mem_singleton.mp hc
  decide

theorem proper_nested {initial final : List Char} {d : Char} (hd : isDelimiter d = true)
    (hspace : d ≠ ' ') (hfirst : d ∉ initial) :
    (nested initial d final).Proper (initial ++ d :: final) := by
  refine ⟨?_, isToken_concat _, ?_, ?_⟩
  · -- A token that opens in the gap would have `d` among two spaces and two times `initial`.
    intro i hi ho
    have hsplit : (' ' :: initial) ++ ((' ' :: (initial ++ d :: final ++ ['a'])) ++
        (Cut.rest (d :: final ++ ['a'])).source) =
        (' ' :: initial ++ ' ' :: initial) ++ (d :: final ++ ['a'] ++ (d :: final ++ ['a'])) := by
      simp [Cut.source]
    rw [hsplit] at ho
    have hlen : i + initial.length + 1 < (' ' :: initial ++ ' ' :: initial).length := by
      simp only [List.length_append, List.length_cons] at hi ⊢
      omega
    have hmem := mem_of_opens ho hlen
    simp [hspace, hfirst] at hmem
  · rintro c ⟨⟩
    exact hd
  · -- What stands behind the inner token is too short for another one.
    intro i hi
    apply not_opens_of_length_le
    simp only [List.append_nil, List.length_drop, List.length_append, List.length_cons,
      List.length_nil]
    omega

theorem sweep_nested {initial final : List Char} {d : Char} (hd : isDelimiter d = true)
    (hspace : d ≠ ' ') (hfirst : d ∉ initial) :
    sweep (initial ++ d :: final) (nested initial d final).source =
      ⟨' ' :: (initial ++ d :: final ++ ['a']), 1⟩ := by
  rw [sweep_of_proper (proper_nested hd hspace hfirst), kept_nested]
  rfl

theorem sweep_token_alone (marker : List Char) :
    sweep marker (' ' :: (marker ++ ['a'])) = ⟨[], 1⟩ := by
  have hend : AtDelimiter [] := by simp [AtDelimiter]
  have hsweep := (isToken_concat marker).sweep_append hend
  rwa [List.append_nil] at hsweep

/-- For every marker with a delimiter in it that is no space there is a text which a second sweep
changes again. -/
theorem exists_text_swept_twice {marker : String} {m : Marker} (hm : Marker.ofText? marker = .ok m)
    (hd : ∃ d ∈ marker.toList, isDelimiter d = true ∧ d ≠ ' ') :
    ∃ text, (m.sweep text).removed = 1 ∧ (m.sweep (m.strip text)).removed = 1 ∧
      m.strip (m.strip text) ≠ m.strip text := by
  obtain rfl := Marker.text_of_ofText? hm
  obtain ⟨d, hmem, hd, hspace⟩ := hd
  obtain ⟨initial, final, hsplit, hfirst⟩ := List.eq_append_cons_of_mem hmem
  have hsweep : m.sweep (nested initial d final).source =
      ⟨' ' :: (m.text.toList ++ ['a']), 1⟩ := by
    rw [Marker.sweep, hsplit]
    exact sweep_nested hd hspace hfirst
  have hagain : m.sweep (' ' :: (m.text.toList ++ ['a'])) = ⟨[], 1⟩ := sweep_token_alone _
  refine ⟨(nested initial d final).source, ?_, ?_, ?_⟩
  · rw [hsweep]
  · rw [Marker.strip, hsweep, hagain]
  · rw [Marker.strip, Marker.strip, hsweep, hagain]
    exact (List.cons_ne_nil _ _).symm

/-- The marker may have spaces in it too, and the same delimiter again. -/
theorem text_swept_twice_for_quotes :
    let m : Marker := ⟨"x \" \"", by decide, by decide⟩
    let text := (nested "x ".toList '"' " \"".toList).source
    Marker.ofText? "x \" \"" = .ok m ∧
      (∃ d ∈ "x \" \"".toList, isDelimiter d = true ∧ d ≠ ' ') ∧
      text = " x  x \" \"a\" \"a".toList ∧ m.sweep text = ⟨" x \" \"a".toList, 1⟩ ∧
      ∃ text, (m.sweep text).removed = 1 ∧ (m.sweep (m.strip text)).removed = 1 ∧
        m.strip (m.strip text) ≠ m.strip text := by
  intro m text
  have hm : Marker.ofText? "x \" \"" = .ok m := Marker.ofText?_text m
  have hd : ∃ d ∈ "x \" \"".toList, isDelimiter d = true ∧ d ≠ ' ' :=
    ⟨'"', by decide, by decide, by decide⟩
  exact ⟨hm, hd, by decide, by decide +kernel, exists_text_swept_twice hm hd⟩

end MarkerSweep
