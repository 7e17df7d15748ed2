import MarkerSweep.Marker
import Mathlib.Data.List.Infix

/-!
# How a text is cut

A sweep cuts a text into gaps, which stay, and tokens, which go. `Cut.Proper` says which cut is the
right one without saying how to find it: each token is whole, and no token opens inside a gap.
`Cut.Proper.unique` and `exists_proper_cut` show that a text has exactly one proper cut, and
`sweep_of_proper` that the sweep keeps its gaps and counts its tokens.
-/

namespace MarkerSweep

open Text

/-- A space, the marker and a character that is no delimiter stand at the start of `text`. -/
def Opens (marker text : List Char) : Prop :=
  ∃ c rest, text = ' ' :: (marker ++ c :: rest) ∧ isDelimiter c = false

def IsToken (marker token : List Char) : Prop :=
  ∃ run, token = ' ' :: (marker ++ run) ∧ run ≠ [] ∧ ∀ c ∈ run, isDelimiter c = false

def AtDelimiter (text : List Char) : Prop :=
  ∀ c, text.head? = some c → isDelimiter c = true

/-- No token opens at a place in `gap`, which `after` follows. -/
def Quiet (marker gap after : List Char) : Prop :=
  ∀ i < gap.length, ¬ Opens marker ((gap ++ after).drop i)

/-- A text in pieces: a gap in front of each token, and one behind the last. -/
inductive Cut where
  | rest (gap : List Char)
  | token (gap token : List Char) (behind : Cut)
  deriving DecidableEq, Repr

namespace Cut

/-- The text that was cut. -/
def source : Cut → List Char
  | rest gap => gap
  | token gap tok behind => gap ++ (tok ++ behind.source)

/-- The gaps, put together. -/
def kept : Cut → List Char
  | rest gap => gap
  | token gap _ behind => gap ++ behind.kept

def count : Cut → Nat
  | rest _ => 0
  | token _ _ behind => behind.count + 1

/-- The tokens are whole, and none opens in a gap. -/
def Proper (marker : List Char) : Cut → Prop
  | rest gap => Quiet marker gap []
  | token gap tok behind =>
    Quiet marker gap (tok ++ behind.source) ∧ IsToken marker tok ∧ AtDelimiter behind.source ∧
      behind.Proper marker

/-- The cut with one more character in front. -/
def push (c : Char) : Cut → Cut
  | rest gap => rest (c :: gap)
  | token gap tok behind => token (c :: gap) tok behind

theorem source_push (c : Char) (cut : Cut) : (cut.push c).source = c :: cut.source := by
  cases cut <;> rfl

theorem kept_push (c : Char) (cut : Cut) : (cut.push c).kept = c :: cut.kept := by
  cases cut <;> rfl

theorem count_push (c : Char) (cut : Cut) : (cut.push c).count = cut.count := by
  cases cut <;> rfl

end Cut

/-! ### Tokens at the start of a text -/

theorem IsToken.opens {marker token : List Char} (h : IsToken marker token) (after : List Char) :
    Opens marker (token ++ after) := by
  obtain ⟨run, rfl, hne, hrun⟩ := h
  obtain ⟨c, run, rfl⟩ := List.exists_cons_of_ne_nil hne
  exact ⟨c, run ++ after, by simp, hrun c List.mem_cons_self⟩

theorem IsToken.ne_nil {marker token : List Char} (h : IsToken marker token) : token ≠ [] := by
  obtain ⟨run, rfl, -, -⟩ := h
  exact List.cons_ne_nil _ _

theorem takeWhile_run {run after : List Char} (hrun : ∀ c ∈ run, isDelimiter c = false)
    (ha : AtDelimiter after) : (run ++ after).takeWhile (fun c => !isDelimiter c) = run := by
  rw [List.takeWhile_append_of_pos fun c hc => by simp [hrun c hc]]
  cases after with
  | nil => simp
  | cons d after => simp [ha d rfl]

/-- How far a run without delimiters reaches is fixed by the text: up to the next delimiter. -/
theorem run_unique {run run' after after' : List Char}
    (hrun : ∀ c ∈ run, isDelimiter c = false) (hrun' : ∀ c ∈ run', isDelimiter c = false)
    (ha : AtDelimiter after) (ha' : AtDelimiter after') (heq : run ++ after = run' ++ after') :
    run = run' ∧ after = after' := by
  obtain rfl : run = run' := by rw [← takeWhile_run hrun ha, heq, takeWhile_run hrun' ha']
  exact ⟨rfl, List.append_cancel_left heq⟩

theorem IsToken.unique {marker tok tok' after after' : List Char}
    (h : IsToken marker tok) (h' : IsToken marker tok')
    (ha : AtDelimiter after) (ha' : AtDelimiter after') (heq : tok ++ after = tok' ++ after') :
    tok = tok' ∧ after = after' := by
  obtain ⟨run, rfl, -, hrun⟩ := h
  obtain ⟨run', rfl, -, hrun'⟩ := h'
  simp only [List.cons_append, List.append_assoc, List.cons.injEq, true_and,
    List.append_cancel_left_eq] at heq
  obtain ⟨rfl, hafter⟩ := run_unique hrun hrun' ha ha' heq
  exact ⟨rfl, hafter⟩

theorem split_of_tokenLength? {marker text : List Char} {n : Nat}
    (h : tokenLength? marker text = some n) :
    ∃ tok after, text = tok ++ after ∧ tok.length = n ∧ IsToken marker tok ∧ AtDelimiter after := by
  unfold tokenLength? at h
  split at h
  · split at h
    · next c run hp =>
      split at h
      · cases h
      · next hc =>
        obtain rfl := List.isPrefixOf?_eq_some_iff_append_eq.mp hp
        obtain rfl := Option.some.inj h
        have hc : isDelimiter c = false := by simpa using hc
        refine ⟨' ' :: (marker ++ c :: run.takeWhile fun c => !isDelimiter c),
          run.dropWhile fun c => !isDelimiter c, by simp, by simp; omega, ⟨_, rfl, by simp, ?_⟩, ?_⟩
        · intro d hd
          rcases List.mem_cons.mp hd with rfl | hd
          · exact hc
          · simpa using List.all_eq_true.mp List.all_takeWhile d hd
        · intro d hd
          have := List.head?_dropWhile_not (fun c => !isDelimiter c) run
          simpa [hd] using this
    · cases h
  · cases h

theorem not_opens_of_tokenLength? {marker text : List Char} (h : tokenLength? marker text = none) :
    ¬ Opens marker text := by
  rintro ⟨c, rest, rfl, hc⟩
  have hp : marker.isPrefixOf? (marker ++ c :: rest) = some (c :: rest) :=
    List.isPrefixOf?_eq_some_iff_append_eq.mpr rfl
  simp [tokenLength?, hp, hc] at h

theorem tokenLength?_eq_none_iff {marker text : List Char} :
    tokenLength? marker text = none ↔ ¬ Opens marker text := by
  constructor
  · exact not_opens_of_tokenLength?
  · intro ho
    cases ht : tokenLength? marker text with
    | none => rfl
    | some n =>
      obtain ⟨tok, after, rfl, -, htok, -⟩ := split_of_tokenLength? ht
      exact absurd (htok.opens after) ho

theorem IsToken.tokenLength?_append {marker tok after : List Char} (h : IsToken marker tok)
    (ha : AtDelimiter after) : tokenLength? marker (tok ++ after) = some tok.length := by
  cases ht : tokenLength? marker (tok ++ after) with
  | none => exact absurd (h.opens after) (tokenLength?_eq_none_iff.mp ht)
  | some n =>
    obtain ⟨tok', after', hsplit, rfl, htok, ha'⟩ := split_of_tokenLength? ht
    rw [(h.unique htok ha ha' hsplit).1]

theorem Opens.lt_length {marker text : List Char} {i : Nat} (h : Opens marker (text.drop i)) :
    i < text.length := by
  obtain ⟨c, rest, heq, -⟩ := h
  have := congrArg List.length heq
  simp only [List.length_drop, List.length_cons] at this
  omega

/-! ### The steps of a sweep -/

theorem IsToken.sweep_append {marker tok after : List Char} (h : IsToken marker tok)
    (ha : AtDelimiter after) :
    sweep marker (tok ++ after) =
      ⟨(sweep marker after).text, (sweep marker after).removed + 1⟩ := by
  rw [sweep_token (h.tokenLength?_append ha), List.drop_left]

theorem sweep_of_not_opens {marker rest : List Char} {c : Char} (h : ¬ Opens marker (c :: rest)) :
    sweep marker (c :: rest) = ⟨c :: (sweep marker rest).text, (sweep marker rest).removed⟩ :=
  sweep_keep (tokenLength?_eq_none_iff.mpr h)

/-- The token that a text opens with, and what stands behind it. -/
theorem Opens.split {marker text : List Char} (h : Opens marker text) :
    ∃ tok after, text = tok ++ after ∧ IsToken marker tok ∧ AtDelimiter after := by
  cases ht : tokenLength? marker text with
  | none => exact absurd h (tokenLength?_eq_none_iff.mp ht)
  | some n =>
    obtain ⟨tok, after, hsplit, -, htok, ha⟩ := split_of_tokenLength? ht
    exact ⟨tok, after, hsplit, htok, ha⟩

/-! ### The proper cut -/

theorem quiet_cons {marker gap after : List Char} {c : Char} :
    Quiet marker (c :: gap) after ↔
      ¬ Opens marker (c :: (gap ++ after)) ∧ Quiet marker gap after := by
  constructor
  · intro h
    exact ⟨h 0 (by simp), fun i hi => h (i + 1) (by simpa using hi)⟩
  · rintro ⟨h0, h⟩ i hi
    cases i with
    | zero => exact h0
    | succ i => exact h i (by simpa using hi)

theorem Cut.proper_push {marker : List Char} {c : Char} {cut : Cut} :
    (cut.push c).Proper marker ↔ ¬ Opens marker (c :: cut.source) ∧ cut.Proper marker := by
  cases cut with
  | rest gap => simp [push, Proper, source, quiet_cons]
  | token gap tok behind => simp [push, Proper, source, quiet_cons, and_assoc]

/-- The sweep makes a proper cut: it keeps the gaps and counts the tokens. -/
theorem exists_proper_cut (marker text : List Char) :
    ∃ cut : Cut, cut.Proper marker ∧ cut.source = text ∧
      sweep marker text = ⟨cut.kept, cut.count⟩ := by
  -- Each step of the sweep leaves a shorter text, whose cut gets one more token or character.
  induction hl : text.length using Nat.strongRecOn generalizing text with
  | _ length ih =>
    cases text with
    | nil => exact ⟨.rest [], by simp [Cut.Proper, Quiet], rfl, rfl⟩
    | cons c rest =>
      by_cases ho : Opens marker (c :: rest)
      · obtain ⟨tok, after, hsplit, htok, hafter⟩ := ho.split
        have hpos : 0 < tok.length := List.length_pos_iff.mpr htok.ne_nil
        have hlen : after.length < length := by
          rw [← hl, hsplit, List.length_append]; omega
        obtain ⟨cut, hp, rfl, hs⟩ := ih after.length hlen after rfl
        refine ⟨.token [] tok cut, ⟨by simp [Quiet], htok, hafter, hp⟩, hsplit.symm, ?_⟩
        rw [hsplit, htok.sweep_append hafter, hs]
        rfl
      · obtain ⟨cut, hp, rfl, hs⟩ := ih rest.length (by simp [← hl]) rest rfl
        refine ⟨cut.push c, Cut.proper_push.mpr ⟨ho, hp⟩, cut.source_push c, ?_⟩
        rw [sweep_of_not_opens ho, hs, cut.kept_push, cut.count_push]

/-- A gap of a proper cut ends where the first token behind it opens, and nowhere else. -/
theorem gap_unique {marker gap gap' tok tok' after after' : List Char}
    (hq : Quiet marker gap (tok ++ after)) (hq' : Quiet marker gap' (tok' ++ after'))
    (ht : IsToken marker tok) (ht' : IsToken marker tok')
    (heq : gap ++ (tok ++ after) = gap' ++ (tok' ++ after')) : gap = gap' := by
  rcases List.append_eq_append_iff.mp heq with ⟨more, rfl, hmore⟩ | ⟨more, rfl, hmore⟩
  · cases more with
    | nil => simp
    | cons c more =>
      refine absurd (ht.opens after) ?_
      rw [hmore]
      simpa using hq' gap.length (by simp)
  · cases more with
    | nil => simp
    | cons c more =>
      refine absurd (ht'.opens after') ?_
      rw [hmore]
      simpa using hq gap'.length (by simp)

theorem not_quiet_of_token {marker gap tok after : List Char} (ht : IsToken marker tok) :
    ¬ Quiet marker (gap ++ (tok ++ after)) [] := by
  intro hq
  have hlt : gap.length < (gap ++ (tok ++ after)).length := by
    have := List.length_pos_iff.mpr ht.ne_nil
    simp only [List.length_append]; omega
  have := hq gap.length hlt
  rw [List.append_nil, List.drop_left] at this
  exact this (ht.opens after)

theorem Cut.Proper.unique {marker : List Char} {cut cut' : Cut} (h : cut.Proper marker)
    (h' : cut'.Proper marker) (heq : cut.source = cut'.source) : cut = cut' := by
  induction cut generalizing cut' with
  | rest gap =>
    cases cut' with
    | rest gap' => exact congrArg Cut.rest heq
    | token gap' tok' behind' =>
      simp only [source] at heq
      rw [Proper, heq] at h
      exact absurd h (not_quiet_of_token h'.2.1)
  | token gap tok behind ih =>
    cases cut' with
    | rest gap' =>
      simp only [source] at heq
      rw [Proper, ← heq] at h'
      exact absurd h' (not_quiet_of_token h.2.1)
    | token gap' tok' behind' =>
      obtain ⟨hq, ht, ha, hb⟩ := h
      obtain ⟨hq', ht', ha', hb'⟩ := h'
      obtain rfl := gap_unique hq hq' ht ht' heq
      obtain ⟨rfl, hsource⟩ := ht.unique ht' ha ha' (List.append_cancel_left heq)
      rw [ih hb hb' hsource]

theorem sweep_of_proper {marker : List Char} {cut : Cut} (h : cut.Proper marker) :
    sweep marker cut.source = ⟨cut.kept, cut.count⟩ := by
  obtain ⟨cut', hp, hs, hsweep⟩ := exists_proper_cut marker cut.source
  rw [hsweep, hp.unique h hs]

/-- What is kept of a text, and how many tokens go, is settled by its one proper cut. -/
theorem sweep_unique_cut {marker : String} {m : Marker} (hm : Marker.ofText? marker = .ok m)
    (text : List Char) :
    ∃ cut : Cut, cut.Proper marker.toList ∧ cut.source = text ∧
      (∀ other : Cut, other.Proper marker.toList → other.source = text → other = cut) ∧
      m.sweep text = ⟨cut.kept, cut.count⟩ ∧ m.strip text = cut.kept ∧
      (marker = "dark:" → Marker.stripDark text = cut.kept) := by
  obtain rfl := Marker.text_of_ofText? hm
  obtain ⟨cut, hp, hs, hsweep⟩ := exists_proper_cut m.text.toList text
  have hstrip : m.strip text = cut.kept := congrArg Swept.text hsweep
  refine ⟨cut, hp, hs, fun other ho hso => ho.unique hp (hso.trans hs.symm), hsweep, hstrip, ?_⟩
  intro hdark
  obtain ⟨_, _, _⟩ := m
  subst hdark
  exact hstrip

/-- Of two tokens that overlap, the sweep takes the first. -/
theorem sweep_overlapping_tokens :
    let m : Marker := ⟨"ab a", by decide, by decide⟩
    Marker.ofText? "ab a" = .ok m ∧ m.sweep " ab ab ax".toList = ⟨" ax".toList, 1⟩ ∧
      ∃ cut : Cut, cut.Proper "ab a".toList ∧ cut.source = " ab ab ax".toList ∧
        (∀ other : Cut, other.Proper "ab a".toList → other.source = " ab ab ax".toList →
          other = cut) ∧
        m.sweep " ab ab ax".toList = ⟨cut.kept, cut.count⟩ ∧
        m.strip " ab ab ax".toList = cut.kept ∧
        ("ab a" = "dark:" → Marker.stripDark " ab ab ax".toList = cut.kept) := by
  intro m
  have hm : Marker.ofText? "ab a" = .ok m := Marker.ofText?_text m
  exact ⟨hm, by decide, sweep_unique_cut hm _⟩

end MarkerSweep
