import MarkerSweep.Proofs.Sweep.Cut

/-!
# Sweeping piece by piece

A delimiter that is no space and not in the marker cuts a text into pieces which no token crosses,
so each piece can be swept by itself: `sweep_separated`. The pieces can be lines, which end in a line
feed or in a carriage return and a line feed (`Lines.sweep_text`).
-/

namespace MarkerSweep

open Text

theorem AtDelimiter.append {a b : List Char} (ha : AtDelimiter a) (hb : AtDelimiter b) :
    AtDelimiter (a ++ b) := by
  cases a with
  | nil => exact hb
  | cons c a => exact ha

theorem atDelimiter_cons {d : Char} (hd : isDelimiter d = true) (rest : List Char) :
    AtDelimiter (d :: rest) := by
  rintro c ⟨⟩
  exact hd

theorem not_opens_of_ne_space {marker rest : List Char} {d : Char} (h : d ≠ ' ') :
    ¬ Opens marker (d :: rest) := by
  rintro ⟨c, more, heq, -⟩
  exact h (List.cons.inj heq).1

/-! ### What no token goes across -/

/-- A token that opens in `a` ends in it, or its marker goes on across the delimiter behind. -/
theorem opens_before_delimiter {marker a b : List Char} {d : Char} (hd : isDelimiter d = true)
    (hopens : Opens marker (a ++ d :: b)) :
    Opens marker a ∨ ∃ inner c outer, ' ' :: marker = a ++ d :: inner ∧
      b = inner ++ c :: outer ∧ isDelimiter c = false := by
  obtain ⟨c, rest, heq, hc⟩ := hopens
  have heq : a ++ d :: b = (' ' :: (marker ++ [c])) ++ rest := by simpa using heq
  rcases List.append_eq_append_iff.mp heq with ⟨left, hleft, hright⟩ | ⟨left, rfl, -⟩
  · cases left with
    | nil =>
      rw [List.append_nil] at hleft
      exact .inl ⟨c, [], hleft.symm, hc⟩
    | cons e left =>
      obtain ⟨rfl, rfl⟩ := List.cons.inj hright
      rcases List.eq_nil_or_concat left with rfl | ⟨inner, c', rfl⟩
      · have hparts : (' ' :: marker) ++ [c] = a ++ [d] := hleft
        obtain rfl : c = d := (List.cons.inj (List.append_inj' hparts rfl).2).1
        rw [hc] at hd
        cases hd
      · have hparts : (' ' :: marker) ++ [c] = (a ++ d :: inner) ++ [c'] := by simpa using hleft
        obtain ⟨hmarker, hlast⟩ := List.append_inj' hparts rfl
        obtain rfl : c = c' := (List.cons.inj hlast).1
        exact .inr ⟨inner, c, rest, hmarker, by simp, hc⟩
  · exact .inl ⟨c, left, by simp, hc⟩

theorem sweep_append {marker b : List Char} (hb : AtDelimiter b)
    (hopens : ∀ a, a ≠ [] → Opens marker (a ++ b) → Opens marker a) (a : List Char) :
    sweep marker (a ++ b) =
      ⟨(sweep marker a).text ++ (sweep marker b).text,
        (sweep marker a).removed + (sweep marker b).removed⟩ := by
  -- As in the sweep itself, each step leaves less of the first text.
  induction hl : a.length using Nat.strongRecOn generalizing a with
  | _ length ih =>
    cases a with
    | nil => simp
    | cons c rest =>
      by_cases ho : Opens marker (c :: rest)
      · obtain ⟨tok, after, hsplit, htok, hafter⟩ := ho.split
        have hpos : 0 < tok.length := List.length_pos_iff.mpr htok.ne_nil
        have hlen : after.length < length := by
          rw [← hl, hsplit, List.length_append]; omega
        rw [hsplit, List.append_assoc, htok.sweep_append (hafter.append hb),
          htok.sweep_append hafter, ih after.length hlen after rfl]
        simp only [Swept.mk.injEq, true_and]
        omega
      · have hno : ¬ Opens marker (c :: (rest ++ b)) :=
          fun h => ho (hopens (c :: rest) (List.cons_ne_nil _ _) h)
        rw [List.cons_append, sweep_of_not_opens hno, sweep_of_not_opens ho,
          ih rest.length (by simp [← hl]) rest rfl]
        rfl

theorem sweep_separated {marker : List Char} {d : Char} (hd : isDelimiter d = true)
    (hspace : d ≠ ' ') (hm : d ∉ marker) (a b : List Char) :
    sweep marker (a ++ d :: b) =
      ⟨(sweep marker a).text ++ d :: (sweep marker b).text,
        (sweep marker a).removed + (sweep marker b).removed⟩ := by
  have hopens : ∀ a, a ≠ [] → Opens marker (a ++ d :: b) → Opens marker a := by
    intro a _ ho
    rcases opens_before_delimiter hd ho with h | ⟨inner, c, outer, hmarker, -, -⟩
    · exact h
    · have hmem : d ∈ ' ' :: marker := by rw [hmarker]; simp
      exact absurd hmem (by simp [hspace, hm])
  rw [sweep_append (atDelimiter_cons hd b) hopens a,
    sweep_of_not_opens (not_opens_of_ne_space hspace)]

/-! ### Lines -/

inductive LineEnd where
  | lineFeed
  /-- A carriage return and a line feed. -/
  | both
  deriving DecidableEq, Repr

def LineEnd.text : LineEnd → List Char
  | lineFeed => ['\n']
  | both => ['\r', '\n']

structure Line where
  text : List Char
  ending : LineEnd
  deriving DecidableEq, Repr

/-- A text as its lines and what stands behind the last line end. -/
structure Lines where
  ended : List Line
  last : List Char
  deriving DecidableEq, Repr

namespace Lines

def text (w : Lines) : List Char :=
  w.ended.flatMap (fun l => l.text ++ l.ending.text) ++ w.last

/-- Each line swept by itself, with the line ends as they were. -/
def sweptBy (m : Marker) (w : Lines) : Swept where
  text := text ⟨w.ended.map fun l => { l with text := m.strip l.text }, m.strip w.last⟩
  removed := w.ended.foldr (fun l n => (m.sweep l.text).removed + n) (m.sweep w.last).removed

/-- The lines with one more character in front of the first. -/
def push (c : Char) (w : Lines) : Lines :=
  match w.ended with
  | [] => ⟨[], c :: w.last⟩
  | l :: rest => ⟨{ l with text := c :: l.text } :: rest, w.last⟩

/-- The lines with an empty one in front of them. -/
def start (ending : LineEnd) (w : Lines) : Lines :=
  { w with ended := ⟨[], ending⟩ :: w.ended }

/-- The lines of a text. A carriage return is part of a line end where a line feed follows. -/
def ofText : List Char → Lines
  | [] => ⟨[], []⟩
  | '\n' :: rest => (ofText rest).start .lineFeed
  | '\r' :: '\n' :: rest => (ofText rest).start .both
  | c :: rest => (ofText rest).push c

theorem text_push (c : Char) (w : Lines) : (w.push c).text = c :: w.text := by
  obtain ⟨ended, last⟩ := w
  cases ended <;> rfl

theorem text_start (ending : LineEnd) (w : Lines) :
    (w.start ending).text = ending.text ++ w.text := by
  simp [start, text]

theorem text_ofText (text : List Char) : (ofText text).text = text := by
  fun_induction ofText text with
  | case1 => rfl
  | case2 rest ih => rw [text_start, ih]; rfl
  | case3 rest ih => rw [text_start, ih]; rfl
  | case4 c rest _ _ ih => rw [text_push, ih]

/-- No line feed stands in a line. -/
def Proper (w : Lines) : Prop :=
  (∀ l ∈ w.ended, '\n' ∉ l.text) ∧ '\n' ∉ w.last

theorem Proper.push {c : Char} {w : Lines} (hc : c ≠ '\n') (h : w.Proper) : (w.push c).Proper := by
  obtain ⟨ended, last⟩ := w
  obtain ⟨hended, hlast⟩ := h
  cases ended with
  | nil => exact ⟨by simp [Lines.push], by simpa [Lines.push, hc.symm] using hlast⟩
  | cons l rest =>
    refine ⟨?_, hlast⟩
    simpa [Lines.push, hc.symm] using hended

theorem Proper.start {ending : LineEnd} {w : Lines} (h : w.Proper) : (w.start ending).Proper := by
  refine ⟨?_, h.2⟩
  simpa [Lines.start] using h.1

theorem proper_ofText (text : List Char) : (ofText text).Proper := by
  fun_induction ofText text with
  | case1 => exact ⟨by simp, by simp⟩
  | case2 rest ih => exact ih.start
  | case3 rest ih => exact ih.start
  | case4 c rest hc _ ih => exact ih.push hc

end Lines

theorem sweep_line {marker : List Char} (hm : '\n' ∉ marker) (a after : List Char)
    (ending : LineEnd) :
    sweep marker (a ++ (ending.text ++ after)) =
      ⟨(sweep marker a).text ++ (ending.text ++ (sweep marker after).text),
        (sweep marker a).removed + (sweep marker after).removed⟩ := by
  cases ending with
  | lineFeed => exact sweep_separated (by decide) (by decide) hm a after
  | both =>
    -- The carriage return may be in the marker, but then a line feed does not follow it there.
    have hopens : ∀ a, a ≠ [] → Opens marker (a ++ '\r' :: '\n' :: after) → Opens marker a := by
      intro a _ ho
      rcases opens_before_delimiter (by decide) ho with h | ⟨inner, c, outer, hmarker, hb, hc⟩
      · exact h
      · cases inner with
        | nil =>
          obtain ⟨rfl, -⟩ := List.cons.inj hb
          cases hc
        | cons e inner =>
          obtain ⟨rfl, -⟩ := List.cons.inj hb
          have hmem : '\n' ∈ ' ' :: marker := by rw [hmarker]; simp
          exact absurd hmem (by simp [hm])
    show sweep marker (a ++ '\r' :: '\n' :: after) = _
    rw [sweep_append (atDelimiter_cons (by decide) _) hopens a,
      sweep_of_not_opens (not_opens_of_ne_space (by decide)),
      sweep_of_not_opens (not_opens_of_ne_space (by decide))]
    rfl

theorem Lines.sweep_text {m : Marker} (hm : '\n' ∉ m.text.toList) (w : Lines) :
    m.sweep w.text = w.sweptBy m := by
  obtain ⟨ended, last⟩ := w
  induction ended with
  | nil => rfl
  | cons l rest ih =>
    have htext : text ⟨l :: rest, last⟩ = l.text ++ (l.ending.text ++ text ⟨rest, last⟩) := by
      simp [text]
    have hrest : sweep m.text.toList (text ⟨rest, last⟩) = sweptBy m ⟨rest, last⟩ := ih
    show sweep m.text.toList (text ⟨l :: rest, last⟩) = _
    rw [htext, sweep_line hm, hrest]
    simp [sweptBy, text, Marker.strip, Marker.sweep]

/-- Sweeping is local: it can be done piece by piece between delimiters that are no spaces and not
in the marker, and line by line where the marker has no line feed in it. -/
theorem sweep_by_pieces {marker : String} {m : Marker} (hm : Marker.ofText? marker = .ok m) :
    (∀ d, isDelimiter d = true → d ≠ ' ' → d ∉ marker.toList → ∀ a b,
      m.sweep (a ++ d :: b) =
        ⟨m.strip a ++ d :: m.strip b, (m.sweep a).removed + (m.sweep b).removed⟩) ∧
      ('\n' ∉ marker.toList →
        (∀ w : Lines, m.sweep w.text = w.sweptBy m) ∧
          ∀ text, (Lines.ofText text).text = text ∧ (Lines.ofText text).Proper ∧
            m.sweep text = (Lines.ofText text).sweptBy m) := by
  obtain rfl := Marker.text_of_ofText? hm
  refine ⟨fun d hd hspace hno a b => sweep_separated hd hspace hno a b, fun hno => ?_⟩
  refine ⟨fun w => w.sweep_text hno, fun text => ?_⟩
  have htext := Lines.text_ofText text
  refine ⟨htext, Lines.proper_ofText text, ?_⟩
  rw [← Lines.sweep_text hno, htext]

/-- A marker with a carriage return and a quote in it: what stands between tabs can be swept by
itself, and so can lines. -/
theorem sweep_marker_with_return :
    let m : Marker := ⟨"a\r\"", by decide, by decide⟩
    let a := "x a\r\"b a\r\ny a\r\"c\r\n a\r\"d".toList
    let b := " a\r\"e\n".toList
    Marker.ofText? "a\r\"" = .ok m ∧ isDelimiter '\t' = true ∧ '\t' ∉ "a\r\"".toList ∧
      '\n' ∉ "a\r\"".toList ∧ m.sweep a = ⟨"x a\r\ny\r\n".toList, 3⟩ ∧
      m.sweep b = ⟨['\n'], 1⟩ ∧
      m.sweep (a ++ '\t' :: b) =
        ⟨m.strip a ++ '\t' :: m.strip b, (m.sweep a).removed + (m.sweep b).removed⟩ ∧
      (Lines.ofText a).ended =
        [⟨"x a\r\"b a".toList, .both⟩, ⟨"y a\r\"c".toList, .both⟩] ∧
      m.sweep a = (Lines.ofText a).sweptBy m := by
  intro m a b
  have hm : Marker.ofText? "a\r\"" = .ok m := Marker.ofText?_text m
  have htab : '\t' ∉ "a\r\"".toList := by decide
  have hfeed : '\n' ∉ "a\r\"".toList := by decide
  obtain ⟨hpieces, hlines⟩ := sweep_by_pieces hm
  refine ⟨hm, by decide, htab, hfeed, by decide +kernel, by decide +kernel, ?_, ?_, ?_⟩
  · exact hpieces '\t' (by decide) (by decide) htab a b
  · decide +kernel
  · exact ((hlines hfeed).2 a).2.2

end MarkerSweep
