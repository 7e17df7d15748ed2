import MarkerSweep.Proofs.Sweep.Seam
import MarkerSweep.Text.Utf8.RoundTrip

/-!
# What a sweep takes out

In the bytes that a text is written in, each token of a cut is a span. `Cut.erase_spans` shows that
the kept text is written in the bytes outside the spans. `Cut.Proper.encode_length_le` bounds how
many bytes are left, so that no text with a token in it stays as it is.
-/

namespace MarkerSweep

/-- The bytes from the place `first` up to the place `past`, without that. -/
structure Span where
  first : Nat
  past : Nat
  deriving DecidableEq, Repr

namespace Span

def covers (s : Span) (i : Nat) : Bool :=
  s.first ≤ i && i < s.past

/-- Bytes without those in a span. The first of them is at the place `start`. -/
def eraseFrom (start : Nat) (spans : List Span) : Bytes → Bytes
  | [] => []
  | b :: rest =>
    if spans.any (·.covers start) then eraseFrom (start + 1) spans rest
    else b :: eraseFrom (start + 1) spans rest

def erase (spans : List Span) (bytes : Bytes) : Bytes :=
  eraseFrom 0 spans bytes

variable {start : Nat} {spans : List Span} {bytes : Bytes}

theorem eraseFrom_append (start : Nat) (spans : List Span) (a b : Bytes) :
    eraseFrom start spans (a ++ b) =
      eraseFrom start spans a ++ eraseFrom (start + a.length) spans b := by
  induction a generalizing start with
  | nil => rfl
  | cons c a ih =>
    have hlen : start + (c :: a).length = start + 1 + a.length := by
      rw [List.length_cons]; omega
    rw [List.cons_append, eraseFrom, eraseFrom, ih, hlen]
    split
    · rfl
    · rfl

theorem eraseFrom_of_covered {s : Span} (hs : s ∈ spans) (hfirst : s.first ≤ start)
    (hpast : start + bytes.length ≤ s.past) : eraseFrom start spans bytes = [] := by
  induction bytes generalizing start with
  | nil => rfl
  | cons b bytes ih =>
    rw [List.length_cons] at hpast
    have hcovers : s.covers start = true := by
      simp only [covers, Bool.and_eq_true, decide_eq_true_eq]; omega
    rw [eraseFrom, if_pos (List.any_eq_true.mpr ⟨s, hs, hcovers⟩)]
    exact ih (by omega) (by omega)

theorem eraseFrom_of_later (h : ∀ s ∈ spans, start + bytes.length ≤ s.first) :
    eraseFrom start spans bytes = bytes := by
  induction bytes generalizing start with
  | nil => rfl
  | cons b bytes ih =>
    simp only [List.length_cons] at h
    have hno : ¬ spans.any (·.covers start) = true := by
      intro hany
      obtain ⟨s, hs, hcovers⟩ := List.any_eq_true.mp hany
      have hfirst := h s hs
      simp only [covers, Bool.and_eq_true, decide_eq_true_eq] at hcovers
      omega
    rw [eraseFrom, if_neg hno, ih fun s hs => by have := h s hs; omega]

theorem eraseFrom_cons_of_past {s : Span} (h : s.past ≤ start) :
    eraseFrom start (s :: spans) bytes = eraseFrom start spans bytes := by
  induction bytes generalizing start with
  | nil => rfl
  | cons b bytes ih =>
    have hno : s.covers start = false := by
      simp only [covers, Bool.and_eq_false_iff, decide_eq_false_iff_not]; omega
    rw [eraseFrom, eraseFrom, List.any_cons, hno, Bool.false_or, ih (by omega)]

end Span

theorem IsToken.encode_length_le {marker tok : List Char} (h : IsToken marker tok) :
    (Utf8.encode marker).length + 2 ≤ (Utf8.encode tok).length := by
  obtain ⟨run, rfl, hne, -⟩ := h
  obtain ⟨c, run, rfl⟩ := List.exists_cons_of_ne_nil hne
  have hfirst : 0 < (String.utf8EncodeChar c).length := by
    rw [String.length_utf8EncodeChar]
    exact c.utf8Size_pos
  have hspace : (String.utf8EncodeChar ' ').length = 1 := by decide
  simp only [Utf8.encode, List.flatMap_cons, List.flatMap_append, List.length_append, hspace]
  omega

namespace Cut

/-- The bytes of each token, where the text starts at the place `start`. -/
def spansFrom (start : Nat) : Cut → List Span
  | rest _ => []
  | token gap tok behind =>
    let first := start + (Utf8.encode gap).length
    let past := first + (Utf8.encode tok).length
    ⟨first, past⟩ :: behind.spansFrom past

def spans (cut : Cut) : List Span :=
  cut.spansFrom 0

theorem length_spansFrom (cut : Cut) (start : Nat) :
    (cut.spansFrom start).length = cut.count := by
  induction cut generalizing start with
  | rest gap => rfl
  | token gap tok behind ih => rw [spansFrom, List.length_cons, ih, count]

theorem le_first_of_mem_spansFrom {cut : Cut} {start : Nat} {s : Span}
    (hs : s ∈ cut.spansFrom start) : start ≤ s.first := by
  induction cut generalizing start with
  | rest gap => cases hs
  | token gap tok behind ih =>
    rcases List.mem_cons.mp hs with rfl | hs
    · exact Nat.le_add_right _ _
    · have := ih hs
      omega

theorem eraseFrom_spansFrom (cut : Cut) (start : Nat) :
    Span.eraseFrom start (cut.spansFrom start) (Utf8.encode cut.source) =
      Utf8.encode cut.kept := by
  induction cut generalizing start with
  | rest gap =>
    refine Span.eraseFrom_of_later ?_
    intro s hs
    cases hs
  | token gap tok behind ih =>
    -- The gap is in front of all spans, the token fills the first one, the rest is behind it.
    rw [source, kept, spansFrom, Utf8.encode_append, Utf8.encode_append, Utf8.encode_append,
      Span.eraseFrom_append, Span.eraseFrom_append]
    congr 1
    · refine Span.eraseFrom_of_later ?_
      intro s hs
      rcases List.mem_cons.mp hs with rfl | hs
      · exact Nat.le_refl _
      · have := le_first_of_mem_spansFrom hs
        omega
    · rw [Span.eraseFrom_of_covered List.mem_cons_self, List.nil_append,
        Span.eraseFrom_cons_of_past, ih]
      · exact Nat.le_refl _
      · exact Nat.le_refl _
      · exact Nat.le_refl _

theorem erase_spans (cut : Cut) :
    Span.erase cut.spans (Utf8.encode cut.source) = Utf8.encode cut.kept :=
  cut.eraseFrom_spansFrom 0

/-- Each token takes at least a space, the marker and one more byte. -/
theorem Proper.encode_length_le {marker : List Char} {cut : Cut} (h : cut.Proper marker) :
    (Utf8.encode cut.kept).length + cut.count * ((Utf8.encode marker).length + 2) ≤
      (Utf8.encode cut.source).length := by
  induction cut with
  | rest gap => simp [kept, count, source]
  | token gap tok behind ih =>
    obtain ⟨-, htok, -, hb⟩ := h
    have hlen := htok.encode_length_le
    have hbehind := ih hb
    simp only [kept, source, count, Utf8.encode_append, List.length_append, Nat.add_mul]
    omega

theorem Proper.count_pos {marker : List Char} {cut : Cut} (h : cut.Proper marker) {i : Nat}
    (ho : Opens marker (cut.source.drop i)) : 0 < cut.count := by
  cases cut with
  | rest gap =>
    refine absurd ?_ (h i ho.lt_length)
    rw [List.append_nil]
    exact ho
  | token gap tok behind => exact Nat.succ_pos _

theorem Proper.count_eq_zero_of_length {marker : List Char} {cut : Cut} (h : cut.Proper marker)
    (hlen : (Utf8.encode cut.kept).length = (Utf8.encode cut.source).length) : cut.count = 0 := by
  have hle := h.encode_length_le
  by_contra hne
  have hpos : 0 < cut.count * ((Utf8.encode marker).length + 2) :=
    Nat.mul_pos (Nat.pos_of_ne_zero hne) (Nat.succ_pos _)
  omega

theorem Proper.kept_ne_source {marker : List Char} {cut : Cut} (h : cut.Proper marker) {i : Nat}
    (ho : Opens marker (cut.source.drop i)) : cut.kept ≠ cut.source := by
  intro heq
  have hzero := h.count_eq_zero_of_length (by rw [heq])
  have hpos := h.count_pos ho
  omega

end Cut

end MarkerSweep
