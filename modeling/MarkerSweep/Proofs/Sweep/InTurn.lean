import MarkerSweep.Proofs.Sweep.Words

/-!
# Sweeps in turn

Each of several sweeps sees the text that the one before it left. Where the markers have no
delimiters in them, the words that go are in the end those that any of the markers asks for
(`gather_sweepEach`), so it does not matter which sweep comes first: `sweepEach_unordered`.
-/

namespace MarkerSweep

open Text

namespace Marker

/-- What sweeps in turn leave of a text, and how many tokens they took altogether. -/
def gather (text : List Char) : List (Except Fault Swept) → Swept
  | [] => ⟨text, 0⟩
  | .ok swept :: rest =>
    ⟨(gather swept.text rest).text, swept.removed + (gather swept.text rest).removed⟩
  | .error _ :: rest => gather text rest

def Extends (long short : String) : Prop :=
  short ≠ long ∧ short.toList <+: long.toList

instance (long short : String) : Decidable (Extends long short) :=
  inferInstanceAs (Decidable (_ ∧ _))

/-- A list of texts without the markers that extend another marker of the list. -/
def unextended (markers : List String) : List String :=
  markers.filter fun long =>
    ¬ (Serves long ∧ ∃ short ∈ markers, Serves short ∧ Extends long short)

end Marker

open Marker

/-! ### Words that any of several markers asks for -/

namespace Spaced

def isMarkedByAny (markers : List String) (s : Spaced) : Bool :=
  markers.any fun marker => decide (Serves marker) && s.isMarked marker.toList

theorem isMarkedByAny_iff {markers : List String} {s : Spaced} :
    s.isMarkedByAny markers = true ↔
      ∃ marker ∈ markers, Serves marker ∧ s.isMarked marker.toList = true := by
  simp [isMarkedByAny]

theorem isMarked_iff {marker : List Char} {s : Spaced} :
    s.isMarked marker = true ↔
      s.delimiter = ' ' ∧ marker <+: s.word ∧ marker.length < s.word.length := by
  simp [isMarked, and_assoc]

/-- A word that goes for a marker goes for what the marker extends. -/
theorem isMarked_of_initial {short long : List Char} {s : Spaced} (hp : short <+: long)
    (h : s.isMarked long = true) : s.isMarked short = true := by
  obtain ⟨hspace, hlong, hlt⟩ := isMarked_iff.mp h
  have hle := hp.length_le
  exact isMarked_iff.mpr ⟨hspace, hp.trans hlong, by omega⟩

theorem isMarkedByAny_unextended (markers : List String) (s : Spaced) :
    s.isMarkedByAny (unextended markers) = s.isMarkedByAny markers := by
  -- From any marker one comes to shorter ones, down to one that extends no other.
  have key (n : Nat) : ∀ marker ∈ markers, marker.toList.length = n → Serves marker →
      s.isMarked marker.toList = true → s.isMarkedByAny (unextended markers) = true := by
    induction n using Nat.strongRecOn with
    | _ n ih =>
      intro marker hmem hlength hserves hmarked
      by_cases hshort : ∃ short ∈ markers, Serves short ∧ Extends marker short
      · obtain ⟨short, hmem', hserves', hne, hp⟩ := hshort
        have hlt : short.toList.length < n := by
          have hle := hp.length_le
          have hneq : short.toList.length ≠ marker.toList.length := fun heq =>
            hne (String.toList_inj.mp (hp.eq_of_length heq))
          omega
        exact ih _ hlt short hmem' rfl hserves' (isMarked_of_initial hp hmarked)
      · refine isMarkedByAny_iff.mpr ⟨marker, ?_, hserves, hmarked⟩
        apply List.mem_filter.mpr
        exact ⟨hmem, decide_eq_true fun h => hshort h.2⟩
  rw [Bool.eq_iff_iff]
  constructor
  · intro h
    obtain ⟨marker, hmem, hboth⟩ := isMarkedByAny_iff.mp h
    exact isMarkedByAny_iff.mpr ⟨marker, (List.mem_filter.mp hmem).1, hboth⟩
  · intro h
    obtain ⟨marker, hmem, hserves, hmarked⟩ := isMarkedByAny_iff.mp h
    exact key _ marker hmem rfl hserves hmarked

end Spaced

/-! ### One sweep after the other -/

/-- The text without the words that any of the markers asks for. -/
def Worded.without (markers : List String) (w : Worded) : Worded :=
  { w with rest := w.rest.filter fun s => !s.isMarkedByAny markers }

theorem sweep_worded {marker : List Char} (hm : ∀ c ∈ marker, isDelimiter c = false)
    (w : Worded) :
    MarkerSweep.sweep marker w.text = ⟨(w.unmarked marker).text, w.markedCount marker⟩ := by
  rw [Worded.text, sweep_plain w.first_plain, sweep_spaced hm]
  rfl

theorem countP_or {α : Type} (p q : α → Bool) (l : List α) :
    l.countP (fun a => p a || q a) = l.countP p + (l.filter fun a => !p a).countP q := by
  induction l with
  | nil => rfl
  | cons a rest ih =>
    rw [List.countP_cons, List.countP_cons, List.filter_cons, ih]
    cases hp : p a with
    | true => simp; omega
    | false => simp [List.countP_cons]; omega

/-- Sweeps in turn take out what any of their markers asks for. -/
theorem gather_sweepEach {markers : List String}
    (hplain : ∀ marker ∈ markers, Serves marker → ∀ c ∈ marker.toList, isDelimiter c = false)
    (w : Worded) :
    gather w.text (sweepEach w.text markers) =
      ⟨(w.without markers).text, w.rest.countP (Spaced.isMarkedByAny markers)⟩ := by
  induction markers generalizing w with
  | nil =>
    have hnone : Spaced.isMarkedByAny [] = fun _ => false := rfl
    simp [sweepEach, gather, Worded.without, hnone]
  | cons marker rest ih =>
    have hrest := fun other hmem => hplain other (List.mem_cons_of_mem marker hmem)
    unfold sweepEach
    split
    · next m hm =>
      have hserves : Serves marker := ofText?_eq_ok_iff.mp ⟨m, hm⟩
      have hsweep : m.sweep w.text =
          ⟨(w.unmarked marker.toList).text, w.markedCount marker.toList⟩ := by
        rw [Marker.sweep, text_of_ofText? hm]
        exact sweep_worded (hplain marker List.mem_cons_self hserves) w
      have hany : Spaced.isMarkedByAny (marker :: rest) =
          fun s => s.isMarked marker.toList || s.isMarkedByAny rest := by
        funext s
        simp [Spaced.isMarkedByAny, hserves]
      have hwithout : (w.unmarked marker.toList).without rest = w.without (marker :: rest) := by
        simp [Worded.without, Worded.unmarked, hany, Bool.and_comm]
      rw [hsweep, gather, ih hrest, hwithout, hany, countP_or]
      rfl
    · next fault hfault =>
      have hserves : ¬ Serves marker := not_serves_of_error hfault
      have hany : Spaced.isMarkedByAny (marker :: rest) = Spaced.isMarkedByAny rest := by
        funext s
        simp [Spaced.isMarkedByAny, hserves]
      rw [gather, ih hrest, Worded.without, Worded.without, hany]

/-- Sweeps in turn come to the same if the same words are marked for their markers. -/
theorem gather_sweepEach_congr {markers others : List String}
    (hplain : ∀ marker ∈ markers, Serves marker → ∀ c ∈ marker.toList, isDelimiter c = false)
    (hsubset : others ⊆ markers)
    (hany : ∀ s : Spaced, s.isMarkedByAny others = s.isMarkedByAny markers) (text : List Char) :
    gather text (sweepEach text others) = gather text (sweepEach text markers) := by
  have hothers := fun other hmem => hplain other (hsubset hmem)
  have hany : Spaced.isMarkedByAny others = Spaced.isMarkedByAny markers := funext hany
  rw [← Worded.text_ofText text, gather_sweepEach hplain, gather_sweepEach hothers,
    Worded.without, Worded.without, hany]

/-- Sweeps with markers that have no delimiters in them leave the same text in whatever order they
are made, and take as many tokens altogether. A marker that extends another one makes no difference,
and neither does a text that is no marker. -/
theorem sweepEach_unordered {markers : List String}
    (hplain : ∀ marker ∈ markers, Serves marker → ∀ c ∈ marker.toList, isDelimiter c = false)
    (text : List Char) :
    (∀ others : List String, others.Perm markers →
        gather text (sweepEach text others) = gather text (sweepEach text markers)) ∧
      gather text (sweepEach text (unextended markers)) = gather text (sweepEach text markers) ∧
      ∀ before faulty fault after, markers = before ++ faulty :: after →
        ofText? faulty = .error fault →
          gather text (sweepEach text (before ++ after)) =
            gather text (sweepEach text markers) := by
  refine ⟨?_, ?_, ?_⟩
  · intro others hperm
    apply gather_sweepEach_congr hplain hperm.subset
    intro s
    exact hperm.any_eq
  · apply gather_sweepEach_congr hplain (List.filter_subset_self ..)
    exact Spaced.isMarkedByAny_unextended markers
  · intro before faulty fault after hcut hfault
    subst hcut
    apply gather_sweepEach_congr hplain
    · simp
    · intro s
      have hserves : ¬ Serves faulty := not_serves_of_error hfault
      simp [Spaced.isMarkedByAny, hserves]

/-- How many tokens each sweep takes depends on the order, but not how many go altogether. -/
theorem sweepEach_with_extension :
    let text := " a:bc c\tca:b a:c a: cc".toList
    let markers := ["a:", "", "a:b", "c"]
    (∀ marker ∈ markers, Serves marker → ∀ c ∈ marker.toList, isDelimiter c = false) ∧
      gather text (sweepEach text markers) = ⟨" c\tca:b a:".toList, 3⟩ ∧
      (sweepEach text markers).map (Except.map Swept.removed) =
        [.ok 2, .error .empty, .ok 0, .ok 1] ∧
      (sweepEach text markers.reverse).map (Except.map Swept.removed) =
        [.ok 1, .ok 1, .error .empty, .ok 1] ∧
      unextended markers = ["a:", "", "c"] ∧
      (∀ others : List String, others.Perm markers →
        gather text (sweepEach text others) = gather text (sweepEach text markers)) ∧
      gather text (sweepEach text (unextended markers)) = gather text (sweepEach text markers) ∧
      ∀ before faulty fault after, markers = before ++ faulty :: after →
        ofText? faulty = .error fault →
          gather text (sweepEach text (before ++ after)) =
            gather text (sweepEach text markers) := by
  intro text markers
  have hall : (markers.all fun marker => marker.toList.all fun c => !isDelimiter c) = true := by
    decide +kernel
  have hplain : ∀ marker ∈ markers, Serves marker → ∀ c ∈ marker.toList, isDelimiter c = false := by
    intro marker hmem _ c hc
    simpa using List.all_eq_true.mp (List.all_eq_true.mp hall marker hmem) c hc
  refine ⟨hplain, ?_, ?_, ?_, ?_, sweepEach_unordered hplain text⟩
  · decide +kernel
  · decide +kernel
  · decide +kernel
  · decide +kernel

end MarkerSweep
