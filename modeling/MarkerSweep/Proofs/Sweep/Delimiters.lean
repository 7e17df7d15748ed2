import MarkerSweep.Proofs.Sweep.Pieces

/-!
# Delimiters under a sweep

A token goes on up to the next delimiter and never over it, so the delimiters that a sweep takes
out are those of the space and the marker, once for each token (`Cut.Proper.count_source`). Where
the marker has none of its own, all delimiters but spaces stay in their order
(`Cut.Proper.filter_kept`).
-/

namespace MarkerSweep

open Text

/-- A delimiter that no token starts with. -/
def isSeparator (c : Char) : Bool :=
  isDelimiter c && c != ' '

theorem isDelimiter_of_isSeparator {c : Char} (h : isSeparator c = true) :
    isDelimiter c = true := by
  rw [isSeparator, Bool.and_eq_true] at h
  exact h.1

theorem IsToken.count_delimiter {marker tok : List Char} {d : Char} (h : IsToken marker tok)
    (hd : isDelimiter d = true) : tok.count d = (' ' :: marker).count d := by
  obtain ⟨run, rfl, -, hrun⟩ := h
  have hno : run.count d = 0 := by
    apply List.count_eq_zero.mpr
    intro hmem
    rw [hrun d hmem] at hd
    cases hd
  rw [← List.cons_append, List.count_append, hno, Nat.add_zero]

theorem IsToken.filter_isSeparator {marker tok : List Char}
    (hm : ∀ c ∈ marker, isDelimiter c = false) (h : IsToken marker tok) :
    tok.filter isSeparator = [] := by
  obtain ⟨run, rfl, -, hrun⟩ := h
  apply List.filter_eq_nil_iff.mpr
  intro c hc hsep
  have hd := isDelimiter_of_isSeparator hsep
  rcases List.mem_cons.mp hc with rfl | hc
  · cases hsep
  · rcases List.mem_append.mp hc with hc | hc
    · rw [hm c hc] at hd
      cases hd
    · rw [hrun c hc] at hd
      cases hd

namespace Cut

variable {marker : List Char} {cut : Cut}

theorem Proper.count_source {d : Char} (h : cut.Proper marker) (hd : isDelimiter d = true) :
    cut.source.count d = cut.kept.count d + cut.count * (' ' :: marker).count d := by
  induction cut with
  | rest gap => simp [source, kept, count]
  | token gap tok behind ih =>
    obtain ⟨-, htok, -, hb⟩ := h
    have hbehind := ih hb
    have htaken := htok.count_delimiter hd
    simp only [source, kept, count, List.count_append, Nat.add_mul, Nat.one_mul]
    omega

theorem Proper.filter_kept (hm : ∀ c ∈ marker, isDelimiter c = false) (h : cut.Proper marker) :
    cut.kept.filter isSeparator = cut.source.filter isSeparator := by
  induction cut with
  | rest gap => rfl
  | token gap tok behind ih =>
    obtain ⟨-, htok, -, hb⟩ := h
    rw [kept, source, List.filter_append, List.filter_append, List.filter_append,
      htok.filter_isSeparator hm, List.nil_append, ih hb]

end Cut

theorem count_eq_of_filter_eq {a b : List Char} (h : a.filter isSeparator = b.filter isSeparator)
    {d : Char} (hd : isSeparator d = true) : a.count d = b.count d := by
  rw [← List.count_filter hd, h, List.count_filter hd]

/-- A text has as many lines that end as line feeds. -/
theorem Lines.length_ended_ofText (text : List Char) :
    (ofText text).ended.length = text.count '\n' := by
  have hpush (c : Char) (w : Lines) : (w.push c).ended.length = w.ended.length := by
    obtain ⟨ended, last⟩ := w
    cases ended <;> rfl
  fun_induction ofText text with
  | case1 => rfl
  | case2 rest ih => rw [start, List.length_cons, ih, List.count_cons_self]
  | case3 rest ih =>
    rw [start, List.length_cons, ih, List.count_cons_of_ne (by decide), List.count_cons_self]
  | case4 c rest hc _ ih => rw [hpush, ih, List.count_cons_of_ne hc]

/-- A sweep takes out just the delimiters of its marker, and the space in front, with each token. A
marker without delimiters leaves all but spaces as they are, so that quotes stay in pairs and lines
stay apart. -/
theorem sweep_conserves_delimiters {marker : String} {m : Marker}
    (hm : Marker.ofText? marker = .ok m) (text : List Char) :
    (∀ d, isDelimiter d = true → text.count d = (m.sweep text).text.count d +
      (m.sweep text).removed * (' ' :: marker.toList).count d) ∧
    ((∀ c ∈ marker.toList, isDelimiter c = false) →
      (m.sweep text).text.filter isSeparator = text.filter isSeparator ∧
        (m.sweep text).text.count '"' = text.count '"' ∧
        (Lines.ofText (m.sweep text).text).ended.length = (Lines.ofText text).ended.length) := by
  obtain rfl := Marker.text_of_ofText? hm
  obtain ⟨cut, hp, rfl, hsweep⟩ := exists_proper_cut m.text.toList text
  have hsweep : m.sweep cut.source = ⟨cut.kept, cut.count⟩ := hsweep
  rw [hsweep]
  refine ⟨fun d hd => hp.count_source hd, fun hplain => ?_⟩
  have hfilter := hp.filter_kept hplain
  refine ⟨hfilter, count_eq_of_filter_eq hfilter (by decide), ?_⟩
  rw [Lines.length_ended_ofText, Lines.length_ended_ofText]
  exact count_eq_of_filter_eq hfilter (by decide)

/-- A marker with a quote and a space in it takes two spaces and a quote with each token. One
without leaves the quotes and the lines alone. -/
theorem sweep_takes_delimiters_of_marker :
    let m : Marker := ⟨"a \"", by decide, by decide⟩
    let text := "\" a \"b a \"c\"\n".toList
    let plain := "\"p dark:q\r\n dark:r\"\n".toList
    Marker.ofText? "a \"" = .ok m ∧ Marker.ofText? "dark:" = .ok .dark ∧
      (∀ c ∈ "dark:".toList, isDelimiter c = false) ∧
      m.sweep text = ⟨"\"\"\n".toList, 2⟩ ∧
      Marker.dark.sweep plain = ⟨"\"p\r\n\"\n".toList, 2⟩ ∧
      isDelimiter '"' = true ∧ text.count '"' = 4 ∧
      text.count '"' = (m.sweep text).text.count '"' +
        (m.sweep text).removed * (' ' :: "a \"".toList).count '"' ∧
      (Marker.dark.sweep plain).text.filter isSeparator = plain.filter isSeparator ∧
      (Marker.dark.sweep plain).text.count '"' = plain.count '"' ∧
      (Lines.ofText (Marker.dark.sweep plain).text).ended.length =
        (Lines.ofText plain).ended.length := by
  intro m text plain
  have hm : Marker.ofText? "a \"" = .ok m := Marker.ofText?_text m
  have hdark : Marker.ofText? "dark:" = .ok .dark := Marker.ofText?_text .dark
  have hquote : isDelimiter '"' = true := by decide
  have hplain : ∀ c ∈ "dark:".toList, isDelimiter c = false := Marker.dark_plain
  refine ⟨hm, hdark, hplain, by decide +kernel, by decide +kernel, hquote, by decide +kernel,
    ?_, ?_⟩
  · exact (sweep_conserves_delimiters hm text).1 '"' hquote
  · exact (sweep_conserves_delimiters hdark plain).2 hplain

end MarkerSweep
