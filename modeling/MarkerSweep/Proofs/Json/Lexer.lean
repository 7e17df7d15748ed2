import MarkerSweep.Proofs.Json.Layout
import Mathlib.Data.List.Chain
import Mathlib.Data.Nat.Digits.Defs

/-!
# Cutting JSON texts into tokens

`lex` reads a text a character at a time. It takes every way to write a string: a character as
itself, by its letter, or by its number in UTF-16. `lex_eq_of_laid`: wherever white space stands
between tokens, `lex` gives the tokens back, as long as no two of them run together.
-/

namespace MarkerSweep.Json

/-- What a text is read in. Characters that were read before stand in reverse. -/
inductive Mode where
  | between
  /-- In a run of letters and digits. -/
  | solid (run : List Char)
  | text (done : List Char)
  /-- Behind a backslash, and behind the first half of a character if there was one. -/
  | escape (done : List Char) (high : Option Nat)
  /-- In the four digits of a UTF-16 unit. -/
  | unit (done : List Char) (high : Option Nat) (digits : List Char)
  /-- Behind the first half of a character. -/
  | half (done : List Char) (high : Nat)

/-! ### Characters by their numbers -/

def hexValue? (c : Char) : Option Nat :=
  if c.isDigit then some (c.toNat - 0x30)
  else if 'a' ≤ c ∧ c ≤ 'f' then some (c.toNat - 0x57)
  else if 'A' ≤ c ∧ c ≤ 'F' then some (c.toNat - 0x37)
  else none

/-- The number that hexadecimal digits stand for. -/
def unitOf? (digits : List Char) : Option Nat :=
  digits.foldlM (fun n c => (hexValue? c).map (16 * n + ·)) 0

/-- What becomes of a UTF-16 unit: a character, half of one, or the second half of one. -/
def closeUnit (done : List Char) : Option Nat → Nat → Option Mode
  | none, unit =>
    if 0xDC00 ≤ unit ∧ unit < 0xE000 then none
    else if 0xD800 ≤ unit ∧ unit < 0xDC00 then some (.half done unit)
    else some (.text (Char.ofNat unit :: done))
  | some high, unit =>
    if 0xDC00 ≤ unit ∧ unit < 0xE000 then
      some (.text (Char.ofNat (0x10000 + (high - 0xD800) * 0x400 + (unit - 0xDC00)) :: done))
    else none

/-! ### Tokens of letters and digits -/

/-- The token of a run of letters and digits. A number has no needless zero at its start. -/
def solidToken? (run : List Char) : Option Token :=
  if run = "true".toList then some (.bool true)
  else if run = "false".toList then some (.bool false)
  else if run.all Char.isDigit && (run == ['0'] || run.head?.any (· != '0')) then
    some (.number (Nat.ofDigitChars 10 run 0))
  else none

def punctuation? (c : Char) : Option Token :=
  [Token.openList, .closeList, .openObject, .closeObject, .comma, .colon].find? fun t =>
    t.spelling = [c]

namespace Mode

def start (c : Char) : Option (List Token × Mode) :=
  if isBlank c then some ([], between)
  else if c = '"' then some ([], text [])
  else if c.isAlphanum then some ([], solid [c])
  else (punctuation? c).map fun t => ([t], between)

def step : Mode → Char → Option (List Token × Mode)
  | between, c => start c
  | solid run, c =>
    if c.isAlphanum then some ([], solid (c :: run))
    else do
      let t ← solidToken? run.reverse
      let (tokens, next) ← start c
      return (t :: tokens, next)
  | text done, c =>
    if c = '"' then some ([.text (String.ofList done.reverse)], between)
    else if c = '\\' then some ([], escape done none)
    else if c.toNat < 0x20 then none
    else some ([], text (c :: done))
  | escape done high, c =>
    if c = 'u' then some ([], unit done high [])
    else if high.isSome then none
    else (unescape? c).map fun d => ([], text (d :: done))
  | unit done high digits, c =>
    if digits.length < 3 then some ([], unit done high (c :: digits))
    else (unitOf? (c :: digits).reverse).bind fun n => (closeUnit done high n).map ([], ·)
  | half done high, c => if c = '\\' then some ([], escape done (some high)) else none

def finish : Mode → Option (List Token)
  | between => some []
  | solid run => (solidToken? run.reverse).map ([·])
  | _ => none

def run (m : Mode) : List Char → Option (List Token)
  | [] => m.finish
  | c :: rest => (m.step c).bind fun (tokens, next) => (next.run rest).map (tokens ++ ·)

end Mode

/-- The tokens of a text, if it consists of tokens. -/
def lex (text : List Char) : Option (List Token) :=
  Mode.between.run text

/-! ### Strings -/

namespace Mode

theorem run_of_step {m next : Mode} {tokens : List Token} {c : Char}
    (h : m.step c = some (tokens, next)) (rest : List Char) :
    m.run (c :: rest) = (next.run rest).map (tokens ++ ·) := by
  rw [run, h]
  rfl

theorem run_of_step_nil {m : Mode} {c : Char} (next : Mode) (h : m.step c = some ([], next))
    (rest : List Char) : m.run (c :: rest) = next.run rest := by
  rw [run_of_step h]
  exact Option.map_id'

theorem hexValue?_digitChar : ∀ n < 16, hexValue? (Nat.digitChar n) = some n := by
  decide

theorem unitOf?_hexDigits {c : Char} (h : c.toNat < 0x20) :
    unitOf? (hexDigits c) = some c.toNat := by
  have hhigh := hexValue?_digitChar (c.toNat / 16) (by omega)
  have hlow := hexValue?_digitChar (c.toNat % 16) (by omega)
  have hzero : hexValue? '0' = some 0 := rfl
  simp only [unitOf?, hexDigits, List.foldlM_cons, List.foldlM_nil, hzero, hhigh, hlow]
  simp
  omega

theorem run_hexDigits {done : List Char} {c : Char} (h : c.toNat < 0x20) (rest : List Char) :
    (unit done none []).run (hexDigits c ++ rest) = (text (c :: done)).run rest := by
  have hunit : closeUnit done none c.toNat = some (text (c :: done)) := by
    rw [closeUnit, if_neg (by omega), if_neg (by omega), Char.ofNat_toNat]
  have hdigits := unitOf?_hexDigits h
  unfold hexDigits at hdigits ⊢
  simp only [List.cons_append, List.nil_append]
  -- three digits are collected, and only the fourth makes them a number
  rw [run_of_step_nil (unit done none ['0']) rfl,
    run_of_step_nil (unit done none ['0', '0']) rfl,
    run_of_step_nil (unit done none [_, '0', '0']) rfl]
  apply run_of_step_nil
  simp only [step]
  rw [if_neg (by simp)]
  simp only [List.reverse_cons, List.reverse_nil, List.nil_append, List.cons_append, hdigits,
    Option.bind_some, hunit, Option.map_some]

theorem run_escapeChar (done : List Char) (c : Char) (rest : List Char) :
    (text done).run (escapeChar c ++ rest) = (text (c :: done)).run rest := by
  rcases escapeChar_cases c with ⟨heq, hquote, hslash, hlow⟩ | ⟨letter, heq, hletter⟩ | ⟨heq, hlow⟩
  · rw [heq]
    apply run_of_step_nil
    rw [step, if_neg hquote, if_neg hslash, if_neg (Nat.not_lt_of_le hlow)]
  · rw [heq]
    have hu : letter ≠ 'u' := by
      rintro rfl
      cases hletter
    rw [List.cons_append, run_of_step_nil (escape done none) rfl]
    apply run_of_step_nil
    simp [step, hu, hletter]
  · rw [heq, List.cons_append, run_of_step_nil (escape done none) rfl,
      List.cons_append, run_of_step_nil (unit done none []) rfl, run_hexDigits hlow]

theorem run_text (done text : List Char) (rest : List Char) :
    (Mode.text done).run (text.flatMap escapeChar ++ '"' :: rest) =
      (between.run rest).map (.text (String.ofList (done.reverse ++ text)) :: ·) := by
  induction text generalizing done with
  | nil =>
    have hstep : (Mode.text done).step '"' =
        some ([.text (String.ofList done.reverse)], between) := rfl
    rw [List.append_nil]
    exact run_of_step hstep rest
  | cons c more ih =>
    rw [List.flatMap_cons, List.append_assoc, run_escapeChar, ih, List.reverse_cons,
      List.append_assoc]
    rfl

theorem run_quote (s : String) (rest : List Char) :
    between.run (quote s ++ rest) = (between.run rest).map (.text s :: ·) := by
  have h := run_text [] s.toList rest
  rw [List.reverse_nil, List.nil_append, String.ofList_toList] at h
  rw [← h, quote, List.cons_append, List.append_assoc]
  exact run_of_step_nil (text []) rfl _

/-! ### Letters and digits -/

theorem start_of_isAlphanum {c : Char} (h : c.isAlphanum = true) :
    start c = some ([], solid [c]) := by
  have hquote : c ≠ '"' := by
    rintro rfl
    cases h
  rw [start, if_neg (by simp [isBlank_of_isAlphanum h]), if_neg hquote, if_pos h]

theorem run_letters {letters : List Char} (h : ∀ c ∈ letters, c.isAlphanum = true)
    (done rest : List Char) :
    (solid done).run (letters ++ rest) = (solid (letters.reverse ++ done)).run rest := by
  induction letters generalizing done with
  | nil => rfl
  | cons c more ih =>
    obtain ⟨hc, hmore⟩ := List.forall_mem_cons.mp h
    have hstep : (solid done).step c = some ([], solid (c :: done)) := by rw [step, if_pos hc]
    rw [List.cons_append, run_of_step_nil _ hstep, ih hmore, List.reverse_cons, List.append_assoc]
    rfl

/-- A run of letters and digits is a token where no other such character stands behind it. -/
theorem run_solid {letters : List Char} {t : Token} (hne : letters ≠ [])
    (h : ∀ c ∈ letters, c.isAlphanum = true) (ht : solidToken? letters = some t) {rest : List Char}
    (hrest : ∀ c ∈ rest.head?, c.isAlphanum = false) :
    between.run (letters ++ rest) = (between.run rest).map (t :: ·) := by
  obtain ⟨c, more, rfl⟩ := List.exists_cons_of_ne_nil hne
  obtain ⟨hc, hmore⟩ := List.forall_mem_cons.mp h
  have hstart : between.step c = some ([], solid [c]) := start_of_isAlphanum hc
  rw [List.cons_append, run_of_step_nil _ hstart, run_letters hmore]
  have hsame : (more.reverse ++ [c]).reverse = c :: more := by simp
  cases rest with
  | nil =>
    simp only [run, finish, hsame, ht]
    rfl
  | cons d rest =>
    -- `d` ends the run, and is read as it would be between tokens
    have hd : ¬ d.isAlphanum = true := by simp [hrest d rfl]
    have hstep : (solid (more.reverse ++ [c])).step d =
        (start d).map fun p => (t :: p.1, p.2) := by
      rw [step, if_neg hd, hsame, ht]
      cases start d <;> rfl
    rw [run, run, hstep, step]
    cases start d with
    | none => rfl
    | some p => simp [Function.comp_def]

theorem run_punctuation {t : Token} {c : Char} (hc : t.spelling = [c])
    (hstart : start c = some ([t], between)) (rest : List Char) :
    between.run (t.spelling ++ rest) = (between.run rest).map (t :: ·) := by
  have hstep : between.step c = some ([t], between) := hstart
  rw [hc]
  exact run_of_step hstep rest

theorem run_blank {c : Char} (hc : isBlank c = true) (rest : List Char) :
    between.run (c :: rest) = between.run rest := by
  have hstep : between.step c = some ([], between) := by rw [step, start, if_pos hc]
  exact run_of_step_nil between hstep rest

end Mode

/-- A number has no zero at its start unless it is zero. -/
theorem head?_writeNumber {n : Nat} (h : n ≠ 0) :
    (writeNumber n).head?.any (· != '0') = true := by
  unfold writeNumber
  induction n using Nat.strongRecOn with
  | _ n ih =>
    rcases Nat.lt_or_ge n 10 with hlt | hge
    · have hdigit : ∀ n < 10, n ≠ 0 → [Nat.digitChar n].head?.any (· != '0') = true := by decide
      rw [Nat.toDigits_of_lt_base hlt]
      exact hdigit n hlt h
    · have hfirst := ih (n / 10) (by omega) (by omega)
      have hne : Nat.toDigits 10 (n / 10) ≠ [] := Nat.toDigits_ne_nil
      rw [Nat.toDigits_of_base_le (by decide) hge, List.head?_append_of_ne_nil _ hne]
      exact hfirst

theorem solidToken?_writeNumber (n : Nat) : solidToken? (writeNumber n) = some (.number n) := by
  -- the words are not taken for it, since they have letters
  have hword {word : List Char} {c : Char} (hc : c ∈ word) (hletter : c.isDigit = false) :
      writeNumber n ≠ word := by
    rintro rfl
    rw [isDigit_of_mem_writeNumber hc] at hletter
    cases hletter
  have hstart : (writeNumber n == ['0'] || (writeNumber n).head?.any (· != '0')) = true := by
    by_cases hn : n = 0
    · rw [hn]
      rfl
    · rw [head?_writeNumber hn, Bool.or_true]
  have hdigits : (writeNumber n).all Char.isDigit = true :=
    List.all_eq_true.mpr fun c hc => isDigit_of_mem_writeNumber hc
  have hvalue : Nat.ofDigitChars 10 (writeNumber n) 0 = n :=
    Nat.ofDigitChars_toDigits (by decide) (by decide)
  rw [solidToken?, if_neg (hword (c := 't') (by decide) rfl),
    if_neg (hword (c := 'f') (by decide) rfl), hdigits, hstart, hvalue]
  rfl

theorem solidToken?_spelling {t : Token} (h : t.isSolid = true) :
    solidToken? t.spelling = some t := by
  cases t with
  | number n => exact solidToken?_writeNumber n
  | bool b => cases b <;> rfl
  | _ => cases h

theorem isAlphanum_of_mem_spelling {t : Token} (h : t.isSolid = true) :
    ∀ c ∈ t.spelling, c.isAlphanum = true := by
  cases t with
  | number n =>
    intro c hc
    rw [Char.isAlphanum, isDigit_of_mem_writeNumber hc, Bool.or_true]
  | bool b => exact List.all_eq_true.mp (by cases b <;> decide)
  | _ => cases h

/-! ### Texts laid out -/

/-- No two tokens side by side run together. -/
def Apart (tokens : List Token) : Prop :=
  tokens.IsChain fun t u => t.isSolid = false ∨ u.isSolid = false

theorem run_spelling {t : Token} {rest : List Char}
    (hrest : t.isSolid = true → ∀ c ∈ rest.head?, c.isAlphanum = false) :
    Mode.between.run (t.spelling ++ rest) = (Mode.between.run rest).map (t :: ·) := by
  by_cases hsolid : t.isSolid = true
  · have hne : t.spelling ≠ [] := by
      intro h
      have ht := solidToken?_spelling hsolid
      rw [h] at ht
      cases ht
    exact Mode.run_solid hne (isAlphanum_of_mem_spelling hsolid) (solidToken?_spelling hsolid)
      (hrest hsolid)
  · cases t with
    | text s => exact Mode.run_quote s rest
    | bool b => exact absurd rfl hsolid
    | number n => exact absurd rfl hsolid
    | _ => exact Mode.run_punctuation rfl rfl rest

/-- A text does not start with a letter or a digit if its first token does not. -/
theorem Laid.head_of_not_isSolid {tokens : List Token} {text : List Char} (h : Laid tokens text)
    (hfirst : ∀ t ∈ tokens.head?, t.isSolid = false) : ∀ c ∈ text.head?, c.isAlphanum = false := by
  cases h with
  | nil => simp
  | blank hc h =>
    intro c' hc'
    obtain rfl := Option.some.inj hc'
    rw [Bool.eq_false_iff]
    intro halnum
    rw [isBlank_of_isAlphanum halnum] at hc
    cases hc
  | token t h =>
    have ht := hfirst t rfl
    cases t with
    | bool b => cases ht
    | number n => cases ht
    | _ =>
      intro c hc
      obtain rfl := Option.some.inj hc
      rfl

theorem lex_eq_of_laid {tokens : List Token} {text : List Char} (h : Laid tokens text)
    (hapart : Apart tokens) : lex text = some tokens := by
  unfold lex
  induction h with
  | nil => rfl
  | blank hc _ ih =>
    rw [Mode.run_blank hc]
    exact ih hapart
  | token t h ih =>
    obtain ⟨hnext, hapart⟩ := List.isChain_cons.mp hapart
    rw [run_spelling, ih hapart]
    · rfl
    · intro hsolid
      apply h.head_of_not_isSolid
      intro u hu
      exact (hnext u hu).resolve_left (by simp [hsolid])

/-- Strings may be written otherwise than reports write them. -/
example : lex "[\"\\u0041\\ud83d\\ude00\\/\", 10 ]".toList =
    some [.openList, .text "A😀/", .comma, .number 10, .closeList] := by
  decide +kernel

/-- Half of a character is no text, and `010` is no number. -/
example : lex "\"\\ud83d\"".toList = none ∧ lex "010".toList = none := by
  decide +kernel

namespace Apart

variable {tokens later : List Token} {t : Token}

theorem cons (ht : t.isSolid = false) (h : Apart tokens) : Apart (t :: tokens) :=
  List.isChain_cons.mpr ⟨fun _ _ => .inl ht, h⟩

theorem join (h : Apart tokens) (ht : t.isSolid = false) (hlater : Apart later) :
    Apart (tokens ++ t :: later) := by
  refine List.isChain_append.mpr ⟨h, hlater.cons ht, ?_⟩
  intro u _ u' hu'
  obtain rfl := Option.some.inj hu'
  exact .inr ht

theorem separated {items : List (List Token)} (h : ∀ tokens ∈ items, Apart tokens) :
    Apart (separated items) := by
  unfold Json.separated
  induction items with
  | nil => exact .nil
  | cons first rest ih =>
    obtain ⟨hfirst, hrest⟩ := List.forall_mem_cons.mp h
    cases rest with
    | nil => rwa [List.intercalate_singleton]
    | cons second rest =>
      rw [List.intercalate_cons_cons, List.append_assoc]
      exact hfirst.join rfl (ih hrest)

theorem bracket {t' : Token} (ht : t.isSolid = false) (ht' : t'.isSolid = false)
    {items : List (List Token)} (h : ∀ tokens ∈ items, Apart tokens) :
    Apart (t :: (Json.separated items ++ [t'])) :=
  ((separated h).join ht' .nil).cons ht

end Apart

mutual

theorem apart_tokens : ∀ v : Json, Apart v.tokens
  | .bool _ => .singleton _
  | .number _ => .singleton _
  | .text _ => .singleton _
  | .list items => .bracket rfl rfl (apart_itemTokens items)
  | .object fields => .bracket rfl rfl (apart_fieldTokens fields)

theorem apart_itemTokens : ∀ items : List Json, ∀ tokens ∈ itemTokens items, Apart tokens
  | [] => by simp [itemTokens]
  | item :: rest => List.forall_mem_cons.mpr ⟨apart_tokens item, apart_itemTokens rest⟩

theorem apart_fieldTokens : ∀ fields : List (String × Json),
    ∀ tokens ∈ fieldTokens fields, Apart tokens
  | [] => by simp [fieldTokens]
  | (_, value) :: rest =>
    List.forall_mem_cons.mpr ⟨((apart_tokens value).cons rfl).cons rfl, apart_fieldTokens rest⟩

end

end MarkerSweep.Json
