import MarkerSweep.Proofs.Sweep.Cut

/-!
# Sweeping word by word

Where the marker has no delimiter in it, a sweep decides on each word of a text by itself: a word
goes, with the space in front of it, if it starts with the marker and does not end there.
`sweep_drops_marked_words` is the main statement. `Worded` is a text as its words and delimiters;
`opens_spaced` says that a token opens at a delimiter just where the word behind it is to go.
-/

namespace MarkerSweep

open Text

/-- A delimiter and the word behind it, which is empty where another delimiter follows. -/
structure Spaced where
  delimiter : Char
  word : List Char
  isDelimiter_delimiter : isDelimiter delimiter = true
  word_plain : ∀ c ∈ word, isDelimiter c = false

/-- A text as the word it starts with, which may be empty, and each delimiter with the word
behind it. -/
structure Worded where
  first : List Char
  rest : List Spaced
  first_plain : ∀ c ∈ first, isDelimiter c = false

namespace Spaced

def text (s : Spaced) : List Char :=
  s.delimiter :: s.word

theorem text_append (s : Spaced) (after : List Char) :
    s.text ++ after = s.delimiter :: (s.word ++ after) := rfl

/-- The word stands behind a space, starts with the marker and is longer than it. -/
def isMarked (marker : List Char) (s : Spaced) : Bool :=
  s.delimiter == ' ' && marker.isPrefixOf s.word && marker.length < s.word.length

end Spaced

namespace Worded

def text (w : Worded) : List Char :=
  w.first ++ w.rest.flatMap Spaced.text

/-- The text without its marked words and the spaces in front of them. -/
def unmarked (marker : List Char) (w : Worded) : Worded :=
  { w with rest := w.rest.filter fun s => !s.isMarked marker }

def markedCount (marker : List Char) (w : Worded) : Nat :=
  w.rest.countP (Spaced.isMarked marker)

def ofText : List Char → Worded
  | [] => ⟨[], [], by simp⟩
  | c :: rest =>
    let w := ofText rest
    if h : isDelimiter c = true then ⟨[], ⟨c, w.first, h, w.first_plain⟩ :: w.rest, by simp⟩
    else
      ⟨c :: w.first, w.rest,
        List.forall_mem_cons.mpr ⟨Bool.eq_false_iff.mpr h, w.first_plain⟩⟩

theorem text_ofText (text : List Char) : (ofText text).text = text := by
  induction text with
  | nil => rfl
  | cons c rest ih =>
    unfold ofText
    by_cases h : isDelimiter c = true
    · simpa [h, Worded.text, Spaced.text] using ih
    · simpa [h, Worded.text] using ih

end Worded

/-! ### The words of a text are settled by the text -/

theorem atDelimiter_spaced (rest : List Spaced) : AtDelimiter (rest.flatMap Spaced.text) := by
  intro c hc
  cases rest with
  | nil => cases hc
  | cons s rest =>
    obtain rfl : s.delimiter = c := Option.some.inj hc
    exact s.isDelimiter_delimiter

theorem spaced_unique {rest rest' : List Spaced}
    (h : rest.flatMap Spaced.text = rest'.flatMap Spaced.text) : rest = rest' := by
  induction rest generalizing rest' with
  | nil =>
    cases rest' with
    | nil => rfl
    | cons s' rest' => cases h
  | cons s rest ih =>
    cases rest' with
    | nil => cases h
    | cons s' rest' =>
      obtain ⟨delimiter, word, hd, hw⟩ := s
      obtain ⟨delimiter', word', hd', hw'⟩ := s'
      obtain ⟨rfl, hrun⟩ := List.cons.inj h
      obtain ⟨rfl, hrest⟩ :=
        run_unique hw hw' (atDelimiter_spaced rest) (atDelimiter_spaced rest') hrun
      rw [ih hrest]

theorem Worded.unique {w w' : Worded} (h : w.text = w'.text) : w = w' := by
  obtain ⟨first, rest, hf⟩ := w
  obtain ⟨first', rest', hf'⟩ := w'
  obtain ⟨rfl, hrest⟩ := run_unique hf hf' (atDelimiter_spaced rest) (atDelimiter_spaced rest') h
  rw [spaced_unique hrest]

/-! ### Where tokens open -/

instance (marker text : List Char) : Decidable (Opens marker text) :=
  decidable_of_iff ((tokenLength? marker text).isSome = true) <| by
    rw [← not_iff_not, Bool.not_eq_true, Option.isSome_eq_false_iff, Option.isNone_iff_eq_none,
      tokenLength?_eq_none_iff]

theorem not_opens_plain {marker rest : List Char} {c : Char} (hc : isDelimiter c = false) :
    ¬ Opens marker (c :: rest) := by
  rintro ⟨d, more, heq, -⟩
  obtain ⟨rfl, -⟩ := List.cons.inj heq
  rw [isDelimiter_space] at hc
  cases hc

theorem Spaced.isToken {marker : List Char} {s : Spaced} (h : s.isMarked marker = true) :
    IsToken marker s.text := by
  unfold isMarked at h
  rw [Bool.and_eq_true, Bool.and_eq_true, beq_iff_eq, List.isPrefixOf_iff_prefix,
    decide_eq_true_eq] at h
  obtain ⟨⟨hspace, run, hrun⟩, hlong⟩ := h
  refine ⟨run, by rw [text, hspace, hrun], ?_, ?_⟩
  · rintro rfl
    rw [← hrun, List.append_nil] at hlong
    omega
  · intro c hc
    apply s.word_plain
    rw [← hrun]
    exact List.mem_append_right _ hc

theorem prefix_of_run {run word after : List Char} (hrun : ∀ c ∈ run, isDelimiter c = false)
    (ha : AtDelimiter after) (h : run <+: word ++ after) : run <+: word := by
  obtain ⟨more, heq⟩ := h
  rcases List.append_eq_append_iff.mp heq with ⟨left, rfl, -⟩ | ⟨left, rfl, hafter⟩
  · exact List.prefix_append run left
  · cases left with
    | nil => simp
    | cons d left =>
      have hd : isDelimiter d = true := ha d (by rw [hafter]; rfl)
      rw [hrun d (by simp)] at hd
      cases hd

/-- A token opens at a delimiter just where the word behind it is marked. -/
theorem opens_spaced {marker : List Char} (hm : ∀ c ∈ marker, isDelimiter c = false) (s : Spaced)
    {after : List Char} (ha : AtDelimiter after) :
    Opens marker (s.text ++ after) ↔ s.isMarked marker = true := by
  constructor
  · rintro ⟨c, more, heq, hc⟩
    obtain ⟨hspace, hword⟩ := List.cons.inj heq
    -- The marker and the character behind it lie in the word, as they are no delimiters.
    have hlong : marker ++ [c] <+: s.word := by
      have hrun : ∀ d ∈ marker ++ [c], isDelimiter d = false := by
        intro d hd
        rcases List.mem_append.mp hd with hd | hd
        · exact hm d hd
        · rwa [List.mem_singleton.mp hd]
      apply prefix_of_run hrun ha
      exact ⟨more, by rw [List.append_assoc]; exact hword.symm⟩
    unfold Spaced.isMarked
    rw [Bool.and_eq_true, Bool.and_eq_true, beq_iff_eq, List.isPrefixOf_iff_prefix,
      decide_eq_true_eq]
    refine ⟨⟨hspace, (List.prefix_append _ _).trans hlong⟩, ?_⟩
    have hle := hlong.length_le
    rw [List.length_append, List.length_singleton] at hle
    omega
  · intro h
    exact (Spaced.isToken h).opens after

/-! ### The sweep of a text in words -/

theorem sweep_plain {marker run : List Char} (hr : ∀ c ∈ run, isDelimiter c = false)
    (after : List Char) :
    sweep marker (run ++ after) =
      ⟨run ++ (sweep marker after).text, (sweep marker after).removed⟩ := by
  induction run with
  | nil => rfl
  | cons c run ih =>
    have hno : ¬ Opens marker (c :: (run ++ after)) := not_opens_plain (hr c List.mem_cons_self)
    rw [List.cons_append, sweep_of_not_opens hno, ih fun d hd => hr d (List.mem_cons_of_mem _ hd)]
    rfl

theorem sweep_spaced {marker : List Char} (hm : ∀ c ∈ marker, isDelimiter c = false)
    (rest : List Spaced) :
    sweep marker (rest.flatMap Spaced.text) =
      ⟨(rest.filter fun s => !s.isMarked marker).flatMap Spaced.text,
        rest.countP (Spaced.isMarked marker)⟩ := by
  induction rest with
  | nil => rfl
  | cons s rest ih =>
    have hafter := atDelimiter_spaced rest
    have hopens := opens_spaced hm s hafter
    rw [List.flatMap_cons, List.filter_cons, List.countP_cons]
    by_cases h : s.isMarked marker = true
    · rw [(Spaced.isToken h).sweep_append hafter, ih, h]
      rfl
    · have hno : ¬ Opens marker (s.text ++ rest.flatMap Spaced.text) := fun ho => h (hopens.mp ho)
      rw [Spaced.text_append] at hno ⊢
      rw [sweep_of_not_opens hno, sweep_plain s.word_plain, ih, Bool.eq_false_iff.mpr h]
      rfl

/-! ### Counting the places at which tokens open -/

/-- At how many places of a text a token opens. -/
def opensCount (marker text : List Char) : Nat :=
  (List.range text.length).countP fun i => Opens marker (text.drop i)

theorem opensCount_cons (marker : List Char) (c : Char) (rest : List Char) :
    opensCount marker (c :: rest) =
      opensCount marker rest + if Opens marker (c :: rest) then 1 else 0 := by
  unfold opensCount
  rw [List.length_cons, List.range_succ_eq_map, List.countP_cons, List.countP_map]
  simp [Function.comp_def]

theorem opensCount_plain {marker run : List Char} (hr : ∀ c ∈ run, isDelimiter c = false)
    (after : List Char) : opensCount marker (run ++ after) = opensCount marker after := by
  induction run with
  | nil => rfl
  | cons c run ih =>
    rw [List.cons_append, opensCount_cons, if_neg (not_opens_plain (hr c List.mem_cons_self)),
      ih fun d hd => hr d (List.mem_cons_of_mem _ hd), Nat.add_zero]

theorem opensCount_spaced {marker : List Char} (hm : ∀ c ∈ marker, isDelimiter c = false)
    (rest : List Spaced) :
    opensCount marker (rest.flatMap Spaced.text) = rest.countP (Spaced.isMarked marker) := by
  induction rest with
  | nil => rfl
  | cons s rest ih =>
    have hopens := opens_spaced hm s (atDelimiter_spaced rest)
    rw [Spaced.text_append] at hopens
    rw [List.flatMap_cons, Spaced.text_append, opensCount_cons, opensCount_plain s.word_plain, ih,
      List.countP_cons]
    simp only [hopens]

/-- A sweep takes out the marked words of a text, each with the space in front of it, and nothing
else: the words can be looked at in any order. -/
theorem sweep_drops_marked_words {marker : String} {m : Marker}
    (hm : Marker.ofText? marker = .ok m) (hplain : ∀ c ∈ marker.toList, isDelimiter c = false)
    (text : List Char) :
    ∃ w : Worded, w.text = text ∧ (∀ other : Worded, other.text = text → other = w) ∧
      m.sweep text = ⟨(w.unmarked marker.toList).text, w.markedCount marker.toList⟩ ∧
      w.markedCount marker.toList = opensCount marker.toList text := by
  obtain rfl := Marker.text_of_ofText? hm
  let w := Worded.ofText text
  have htext : w.text = text := Worded.text_ofText text
  refine ⟨w, htext, fun other ho => Worded.unique (ho.trans htext.symm), ?_, ?_⟩
  · show sweep m.text.toList text = _
    rw [← htext, Worded.text, sweep_plain w.first_plain, sweep_spaced hplain]
    rfl
  · rw [← htext, Worded.text, opensCount_plain w.first_plain, opensCount_spaced hplain]
    rfl

/-- Words behind a space go, also in a row; those at the start or behind another delimiter stay, as
does the bare marker. -/
theorem sweep_drops_words_behind_spaces :
    let text := "dark:a dark:b dark:c\tdark:d dark: e".toList
    let w := Worded.ofText text
    Marker.ofText? "dark:" = .ok .dark ∧ (∀ c ∈ "dark:".toList, isDelimiter c = false) ∧
      (w.unmarked "dark:".toList).text = "dark:a\tdark:d dark: e".toList ∧
      w.markedCount "dark:".toList = 2 ∧
      ∃ w : Worded, w.text = text ∧ (∀ other : Worded, other.text = text → other = w) ∧
        Marker.dark.sweep text =
          ⟨(w.unmarked "dark:".toList).text, w.markedCount "dark:".toList⟩ ∧
        w.markedCount "dark:".toList = opensCount "dark:".toList text := by
  intro text w
  have hm : Marker.ofText? "dark:" = .ok .dark := Marker.ofText?_text .dark
  have hplain : ∀ c ∈ "dark:".toList, isDelimiter c = false := Marker.dark_plain
  exact ⟨hm, hplain, by decide +kernel, by decide +kernel, sweep_drops_marked_words hm hplain text⟩

end MarkerSweep
