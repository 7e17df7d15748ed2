import MarkerSweep.Proofs.Sweep.Cut

/-!
# Tokens across seams

Where a token was taken out, the text has a seam, and what stands on its two sides may make a new
token. `opens_kept` shows that a token of the kept text lies across a seam, and that the character
behind the seam is a delimiter of the marker. So a marker without delimiters leaves nothing to a
second sweep: `sweep_sweep`.
-/

namespace MarkerSweep

open Text

/-- The places in the kept text at which tokens were taken out. -/
def Cut.seams : Cut → List Nat
  | rest _ => []
  | token gap _ behind => gap.length :: behind.seams.map (gap.length + ·)

/-- The character behind a seam is a delimiter, also where several tokens went in a row. -/
theorem Cut.Proper.atDelimiter_kept {marker : List Char} {cut : Cut} (h : cut.Proper marker)
    (hs : AtDelimiter cut.source) : AtDelimiter cut.kept := by
  induction cut with
  | rest gap => exact hs
  | token gap tok behind ih =>
    obtain ⟨-, -, ha, hb⟩ := h
    cases gap with
    | nil => exact ih hb ha
    | cons c gap =>
      intro d hd
      exact hs d hd

/-- A token that opens in a gap when the gap is followed by something else than before runs out of
the gap within the marker. -/
theorem opens_across {marker gap after more : List Char} {i : Nat}
    (hq : Quiet marker gap after) (hm : AtDelimiter more) (hi : i < gap.length)
    (ho : Opens marker ((gap ++ more).drop i)) :
    gap.length ≤ i + marker.length ∧
      ∃ d, more.head? = some d ∧ marker[gap.length - i - 1]? = some d ∧ isDelimiter d = true := by
  have hno := hq i hi
  rw [List.drop_append_of_le_length (Nat.le_of_lt hi)] at ho hno
  have hlen : (gap.drop i).length = gap.length - i := List.length_drop
  obtain ⟨c, rest, heq, hc⟩ := ho
  have heq : gap.drop i ++ more = (' ' :: (marker ++ [c])) ++ rest := by simpa using heq
  rcases List.append_eq_append_iff.mp heq with ⟨left, hleft, rfl⟩ | ⟨left, hleft, -⟩
  · -- `left` is the part of the marker and its next character that stands behind the seam.
    obtain ⟨e, inner, hinner⟩ : ∃ e inner, gap.drop i = e :: inner :=
      List.exists_cons_of_length_pos (by omega)
    rw [hinner] at hleft hlen
    rw [List.length_cons] at hlen
    cases left with
    | nil =>
      rw [List.append_nil] at hleft
      refine absurd ⟨c, after, ?_, hc⟩ hno
      rw [hinner, ← hleft]
      simp
    | cons d left =>
      have hd : isDelimiter d = true := hm d rfl
      rcases List.eq_nil_or_concat left with rfl | ⟨left, c', rfl⟩
      · have hparts : (' ' :: marker) ++ [c] = (e :: inner) ++ [d] := by simpa using hleft
        obtain rfl : c = d := (List.cons.inj (List.append_inj' hparts rfl).2).1
        rw [hc] at hd
        cases hd
      · have hmarker : marker = inner ++ d :: left := by
          have hparts : (' ' :: marker) ++ [c] = (e :: (inner ++ d :: left)) ++ [c'] := by
            simpa using hleft
          exact (List.cons.inj (List.append_inj' hparts rfl).1).2
        have hindex : gap.length - i - 1 = inner.length := by omega
        refine ⟨?_, d, rfl, ?_, hd⟩
        · rw [hmarker, List.length_append, List.length_cons]; omega
        · rw [hindex, hmarker]; simp
  · refine absurd ⟨c, left ++ after, ?_, hc⟩ hno
    rw [hleft]
    simp

/-- A token of the kept text lies across a seam, with a delimiter of its marker right behind it. -/
theorem opens_kept {marker : List Char} {cut : Cut} (h : cut.Proper marker) {i : Nat}
    (ho : Opens marker (cut.kept.drop i)) :
    ∃ j ∈ cut.seams, i < j ∧ j ≤ i + marker.length ∧
      ∃ d, cut.kept[j]? = some d ∧ marker[j - i - 1]? = some d ∧ isDelimiter d = true := by
  induction cut generalizing i with
  | rest gap =>
    refine absurd ?_ (h i ho.lt_length)
    rw [List.append_nil]
    exact ho
  | token gap tok behind ih =>
    obtain ⟨hq, -, ha, hb⟩ := h
    rcases Nat.lt_or_ge i gap.length with hi | hi
    · obtain ⟨hle, d, hhead, hmarker, hd⟩ := opens_across hq (hb.atDelimiter_kept ha) hi ho
      refine ⟨gap.length, List.mem_cons_self, hi, hle, d, ?_, hmarker, hd⟩
      rw [Cut.kept, List.getElem?_append_right (Nat.le_refl _), Nat.sub_self, ← hhead,
        List.head?_eq_getElem?]
    · obtain ⟨k, rfl⟩ := Nat.exists_eq_add_of_le hi
      rw [Cut.kept, List.drop_append, List.drop_eq_nil_of_le hi, List.nil_append,
        Nat.add_sub_cancel_left] at ho
      obtain ⟨j, hj, hkj, hjle, d, hget, hmarker, hd⟩ := ih hb ho
      refine ⟨gap.length + j, List.mem_cons_of_mem _ (List.mem_map_of_mem hj), by omega, by omega,
        d, ?_, ?_, hd⟩
      · rw [Cut.kept, List.getElem?_append_right (Nat.le_add_right _ _), Nat.add_sub_cancel_left]
        exact hget
      · rw [← hmarker]
        congr 1
        omega

theorem sweep_eq_self {marker text : List Char} (h : ∀ i, ¬ Opens marker (text.drop i)) :
    sweep marker text = ⟨text, 0⟩ := by
  have hp : (Cut.rest text).Proper marker := by
    intro i _
    rw [List.append_nil]
    exact h i
  exact sweep_of_proper hp

theorem not_opens_kept {marker : List Char} (hm : ∀ c ∈ marker, isDelimiter c = false) {cut : Cut}
    (h : cut.Proper marker) (i : Nat) : ¬ Opens marker (cut.kept.drop i) := by
  intro ho
  obtain ⟨j, -, -, -, d, -, hget, hd⟩ := opens_kept h ho
  rw [hm d (List.mem_of_getElem? hget)] at hd
  cases hd

/-- A text swept for a marker without delimiters has nothing in it for a second sweep. -/
theorem sweep_sweep {marker : List Char} (hm : ∀ c ∈ marker, isDelimiter c = false)
    (text : List Char) :
    sweep marker (sweep marker text).text = ⟨(sweep marker text).text, 0⟩ := by
  obtain ⟨cut, hp, -, hs⟩ := exists_proper_cut marker text
  rw [hs]
  exact sweep_eq_self (not_opens_kept hm hp)

theorem Marker.strip_strip {m : Marker} (hm : ∀ c ∈ m.text.toList, isDelimiter c = false)
    (text : List Char) : m.strip (m.strip text) = m.strip text := by
  have hagain : m.sweep (m.strip text) = ⟨m.strip text, 0⟩ := sweep_sweep hm text
  show (m.sweep (m.strip text)).text = _
  rw [hagain]

/-- Tokens of a swept text lie across seams, and within a delimiter of the marker; without such a
delimiter there are none. -/
theorem sweep_leaves_tokens_across_seams {marker : String} {m : Marker}
    (hm : Marker.ofText? marker = .ok m) (text : List Char) :
    ∃ cut : Cut, cut.Proper marker.toList ∧ cut.source = text ∧
      m.sweep text = ⟨cut.kept, cut.count⟩ ∧
      (∀ i, Opens marker.toList (cut.kept.drop i) →
        ∃ j ∈ cut.seams, i < j ∧ j ≤ i + marker.toList.length ∧
          ∃ d, cut.kept[j]? = some d ∧ marker.toList[j - i - 1]? = some d ∧
            isDelimiter d = true) ∧
      ((∀ c ∈ marker.toList, isDelimiter c = false) →
        (∀ i, ¬ Opens marker.toList (cut.kept.drop i)) ∧
          m.sweep cut.kept = ⟨cut.kept, 0⟩ ∧ (m.sweep cut.kept).isBorrowed = true ∧
          m.strip (m.strip text) = m.strip text) := by
  obtain rfl := Marker.text_of_ofText? hm
  obtain ⟨cut, hp, hs, hsweep⟩ := exists_proper_cut m.text.toList text
  refine ⟨cut, hp, hs, hsweep, fun i => opens_kept hp, fun hplain => ?_⟩
  have hagain : m.sweep cut.kept = ⟨cut.kept, 0⟩ := sweep_eq_self (not_opens_kept hplain hp)
  refine ⟨not_opens_kept hplain hp, hagain, by rw [hagain]; rfl, ?_⟩
  have hkept : m.strip text = cut.kept := congrArg Swept.text hsweep
  rw [hkept]
  exact congrArg Swept.text hagain

/-- A marker with a quote in it can leave a token behind, which a second sweep takes. -/
theorem sweep_leaves_quoted_token :
    let m : Marker := ⟨"x\"y", by decide, by decide⟩
    Marker.ofText? "x\"y" = .ok m ∧ m.sweep " x x\"yc\"yc".toList = ⟨" x\"yc".toList, 1⟩ ∧
      m.sweep " x\"yc".toList = ⟨[], 1⟩ ∧
      ∃ cut : Cut, cut.Proper "x\"y".toList ∧ cut.source = " x x\"yc\"yc".toList ∧
        m.sweep " x x\"yc\"yc".toList = ⟨cut.kept, cut.count⟩ ∧
        (∀ i, Opens "x\"y".toList (cut.kept.drop i) →
          ∃ j ∈ cut.seams, i < j ∧ j ≤ i + "x\"y".toList.length ∧
            ∃ d, cut.kept[j]? = some d ∧ "x\"y".toList[j - i - 1]? = some d ∧
              isDelimiter d = true) ∧
        ((∀ c ∈ "x\"y".toList, isDelimiter c = false) →
          (∀ i, ¬ Opens "x\"y".toList (cut.kept.drop i)) ∧
            m.sweep cut.kept = ⟨cut.kept, 0⟩ ∧ (m.sweep cut.kept).isBorrowed = true ∧
            m.strip (m.strip " x x\"yc\"yc".toList) = m.strip " x x\"yc\"yc".toList) := by
  intro m
  have hm : Marker.ofText? "x\"y" = .ok m := Marker.ofText?_text m
  exact ⟨hm, by decide, by decide, sweep_leaves_tokens_across_seams hm _⟩

end MarkerSweep
