import MarkerSweep.Text.Delimiter

/-!
# Tokens and sweeping

A token of a text is a space, a marker, and then a run of one or more characters that are not
delimiters, as long as possible. `sweep` takes the tokens out of a text, from left to right,
and goes on right behind each one it took.

`sweep_token` and `sweep_keep` are its two steps: over a token, and over any other character.
-/

namespace MarkerSweep

open Text

/-- The number of characters of the token that `text` starts with, if it starts with one. -/
def tokenLength? (marker : List Char) : List Char → Option Nat
  | ' ' :: rest =>
    match marker.isPrefixOf? rest with
    | some (c :: run) =>
      if isDelimiter c then none
      else some (marker.length + 2 + (run.takeWhile fun c => !isDelimiter c).length)
    | _ => none
  | _ => none

/-- A text without its tokens, and how many there were. -/
structure Swept where
  text : List Char
  removed : Nat
  deriving DecidableEq, Repr

/-- Whether the text is the very one that was swept and no copy of it: there was nothing to remove. -/
def Swept.isBorrowed (s : Swept) : Bool :=
  s.removed == 0

/-- Sweeps the text after its first `skip` characters, which belong to a token already counted.
`kept`, in reverse, and `removed` are what came before. -/
def sweepOnto (marker : List Char) (kept : List Char) (removed skip : Nat) : List Char → Swept
  | [] => ⟨kept.reverse, removed⟩
  | c :: rest =>
    match skip with
    | skip + 1 => sweepOnto marker kept removed skip rest
    | 0 =>
      match tokenLength? marker (c :: rest) with
      | some length => sweepOnto marker kept (removed + 1) (length - 1) rest
      | none => sweepOnto marker (c :: kept) removed 0 rest

/-- The text without its tokens. -/
def sweep (marker text : List Char) : Swept :=
  sweepOnto marker [] 0 0 text

/-! ### The two steps of a sweep -/

theorem tokenLength?_pos {marker text : List Char} {n : Nat}
    (h : tokenLength? marker text = some n) :
    0 < n := by
  unfold tokenLength? at h
  split at h
  · split at h
    · split at h
      · cases h
      · cases h
        omega
    · cases h
  · cases h

theorem sweepOnto_skip (marker kept : List Char) (removed skip : Nat) (text : List Char) :
    sweepOnto marker kept removed skip text = sweepOnto marker kept removed 0 (text.drop skip) := by
  induction text generalizing skip with
  | nil => cases skip <;> simp [sweepOnto]
  | cons c rest ih =>
    cases skip with
    | zero => rfl
    | succ skip => rw [sweepOnto, ih, List.drop_succ_cons]

theorem sweepOnto_eq (marker kept : List Char) (removed skip : Nat) (text : List Char) :
    sweepOnto marker kept removed skip text =
      ⟨kept.reverse ++ (sweepOnto marker [] 0 skip text).text,
        removed + (sweepOnto marker [] 0 skip text).removed⟩ := by
  induction text generalizing kept removed skip with
  | nil => simp [sweepOnto]
  | cons c rest ih =>
    cases skip with
    | succ skip => simp only [sweepOnto]; exact ih kept removed skip
    | zero =>
      simp only [sweepOnto]
      cases tokenLength? marker (c :: rest) with
      | some n =>
        simp only
        rw [ih kept, ih [] (0 + 1)]
        simp [Nat.add_assoc]
      | none =>
        simp only
        rw [ih (c :: kept), ih [c]]
        simp

@[simp]
theorem sweep_nil (marker : List Char) : sweep marker [] = ⟨[], 0⟩ := rfl

theorem sweep_token {marker text : List Char} {n : Nat} (h : tokenLength? marker text = some n) :
    sweep marker text =
      ⟨(sweep marker (text.drop n)).text, (sweep marker (text.drop n)).removed + 1⟩ := by
  cases text with
  | nil => simp [tokenLength?] at h
  | cons c rest =>
    have hn := tokenLength?_pos h
    obtain ⟨m, rfl⟩ : ∃ m, n = m + 1 := ⟨n - 1, by omega⟩
    simp only [sweep]
    rw [sweepOnto, h]
    simp only [Nat.add_sub_cancel]
    rw [sweepOnto_eq, sweepOnto_skip]
    simp [Nat.add_comm]

theorem sweep_keep {marker : List Char} {c : Char} {rest : List Char}
    (h : tokenLength? marker (c :: rest) = none) :
    sweep marker (c :: rest) = ⟨c :: (sweep marker rest).text, (sweep marker rest).removed⟩ := by
  simp only [sweep]
  rw [sweepOnto, h]
  simp only
  rw [sweepOnto_eq]
  simp

end MarkerSweep
