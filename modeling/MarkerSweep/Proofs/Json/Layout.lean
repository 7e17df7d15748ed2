import MarkerSweep.Text.Json
import Mathlib.Data.List.Forall2

/-!
# Tokens and layout of JSON texts

A value has one sequence of tokens, and its texts are these tokens with white space between them:
`laid_pretty` and `spell_tokens`. What is left of a text when the white space outside of its strings
is removed depends only on its tokens, so that it is the compact text: `unspaced_pretty`.
-/

namespace MarkerSweep.Json

/-! ### Tokens -/

inductive Token where
  | openList
  | closeList
  | openObject
  | closeObject
  | comma
  | colon
  | bool (value : Bool)
  | number (value : Nat)
  | text (value : String)
  deriving DecidableEq, Repr

namespace Token

def spelling : Token → List Char
  | openList => ['[']
  | closeList => [']']
  | openObject => ['\x7b']
  | closeObject => ['\x7d']
  | comma => [',']
  | colon => [':']
  | bool b => writeBool b
  | number n => writeNumber n
  | text s => quote s

/-- Whether the token is spelled in letters or digits, so that it runs together with another such
token where nothing stands between them. -/
def isSolid : Token → Bool
  | bool _ => true
  | number _ => true
  | _ => false

end Token

/-- Tokens of items with a comma between each two items. -/
def separated (items : List (List Token)) : List Token :=
  [Token.comma].intercalate items

mutual

def tokens : Json → List Token
  | .bool b => [.bool b]
  | .number n => [.number n]
  | .text s => [.text s]
  | .list items => .openList :: (separated (itemTokens items) ++ [.closeList])
  | .object fields => .openObject :: (separated (fieldTokens fields) ++ [.closeObject])

def itemTokens : List Json → List (List Token)
  | [] => []
  | item :: rest => tokens item :: itemTokens rest

def fieldTokens : List (String × Json) → List (List Token)
  | [] => []
  | (name, value) :: rest => (.text name :: .colon :: tokens value) :: fieldTokens rest

end

/-- The tokens with nothing between them. -/
def spell (tokens : List Token) : List Char :=
  tokens.flatMap Token.spelling

theorem spell_append (first second : List Token) :
    spell (first ++ second) = spell first ++ spell second := by
  unfold spell
  rw [List.flatMap_append]

theorem spell_separated (items : List (List Token)) :
    spell (separated items) = commaSeparated (items.map spell) := by
  unfold separated commaSeparated
  induction items with
  | nil => rfl
  | cons first rest ih =>
    cases rest with
    | nil => simp
    | cons second rest =>
      rw [List.map_cons, List.map_cons, List.intercalate_cons_cons, List.intercalate_cons_cons,
        spell_append, spell_append, ih]
      rfl

mutual

/-- The compact text is the tokens of the value and nothing else. -/
theorem spell_tokens : ∀ v : Json, spell v.tokens = v.compact
  | .bool b => List.append_nil _
  | .number n => List.append_nil _
  | .text s => List.append_nil _
  | .list items => by
    rw [tokens, compact, ← spell_itemTokens items, ← spell_separated]
    exact congrArg (List.cons '[') (spell_append _ _)
  | .object fields => by
    rw [tokens, compact, ← spell_fieldTokens fields, ← spell_separated]
    exact congrArg (List.cons '\x7b') (spell_append _ _)

theorem spell_itemTokens : ∀ items : List Json,
    (itemTokens items).map spell = compactItems items
  | [] => rfl
  | item :: rest => by
    rw [itemTokens, compactItems, List.map_cons, spell_tokens item, spell_itemTokens rest]

theorem spell_fieldTokens : ∀ fields : List (String × Json),
    (fieldTokens fields).map spell = compactFields fields
  | [] => rfl
  | (name, value) :: rest => by
    rw [fieldTokens, compactFields, List.map_cons, spell_fieldTokens rest, ← spell_tokens value]
    rfl

end

/-! ### Layout -/

/-- The white space that may stand between tokens. -/
def isBlank (c : Char) : Bool :=
  c = ' ' || c = '\n' || c = '\r' || c = '\t'

theorem isBlank_of_isAlphanum {c : Char} (h : c.isAlphanum = true) : isBlank c = false := by
  rw [Bool.eq_false_iff]
  intro hblank
  simp only [isBlank, Bool.or_eq_true, decide_eq_true_eq] at hblank
  rcases hblank with ((rfl | rfl) | rfl) | rfl <;> cases h

/-- The text is these tokens, with white space in front of, between and behind them. -/
inductive Laid : List Token → List Char → Prop
  | nil : Laid [] []
  | blank {tokens : List Token} {text : List Char} {c : Char} (hc : isBlank c = true)
      (h : Laid tokens text) : Laid tokens (c :: text)
  | token {tokens : List Token} {text : List Char} (t : Token) (h : Laid tokens text) :
      Laid (t :: tokens) (t.spelling ++ text)

namespace Laid

variable {first second : List Token} {a b : List Char}

theorem append (h : Laid first a) (h' : Laid second b) : Laid (first ++ second) (a ++ b) := by
  induction h with
  | nil => exact h'
  | blank hc _ ih => exact .blank hc ih
  | token t _ ih =>
    rw [List.append_assoc]
    exact .token t ih

theorem single (t : Token) : Laid [t] t.spelling := by
  have h := token t nil
  rwa [List.append_nil] at h

theorem of_blanks {text : List Char} (h : ∀ c ∈ text, isBlank c = true) : Laid [] text := by
  induction text with
  | nil => exact nil
  | cons c rest ih =>
    obtain ⟨hc, hrest⟩ := List.forall_mem_cons.mp h
    exact blank hc (ih hrest)

theorem newline (level : Nat) : Laid [] (newline level) := by
  apply of_blanks
  intro c hc
  rcases List.mem_cons.mp hc with rfl | hc
  · rfl
  · rw [List.eq_of_mem_replicate hc]
    rfl

theorem separated {items : List (List Token)} {texts : List (List Char)}
    (h : List.Forall₂ Laid items texts) : Laid (separated items) (commaSeparated texts) := by
  unfold Json.separated commaSeparated
  induction h with
  | nil => exact nil
  | cons hfirst hrest ih =>
    cases hrest with
    | nil => simpa using hfirst
    | cons _ _ =>
      rw [List.intercalate_cons_cons, List.intercalate_cons_cons]
      exact (hfirst.append (single .comma)).append ih

theorem bracket (level : Nat) (t t' : Token) {start stop : Char} (hstart : t.spelling = [start])
    (hstop : t'.spelling = [stop]) {items : List (List Token)} {texts : List (List Char)}
    (h : List.Forall₂ Laid items texts) :
    Laid (t :: (Json.separated items ++ [t'])) (bracket level start stop texts) := by
  have hopen : Laid [t] [start] := hstart ▸ single t
  have hclose : Laid [t'] [stop] := hstop ▸ single t'
  have hlines : List.Forall₂ Laid items
      (texts.map fun text => Json.newline (level + 1) ++ text) := by
    rw [List.forall₂_map_right_iff]
    exact h.imp fun _ _ hitem => (newline (level + 1)).append hitem
  have hbody := (separated hlines).append ((newline level).append hclose)
  rw [List.nil_append, ← List.append_assoc] at hbody
  -- without items there is no line break between the brackets either
  cases h with
  | nil => exact hopen.append hclose
  | cons _ _ => exact hopen.append hbody

end Laid

mutual

theorem laid_prettyAt (level : Nat) : ∀ v : Json, Laid v.tokens (prettyAt level v)
  | .bool b => .single (.bool b)
  | .number n => .single (.number n)
  | .text s => .single (.text s)
  | .list items => .bracket level .openList .closeList rfl rfl (laid_prettyItems (level + 1) items)
  | .object fields =>
    .bracket level .openObject .closeObject rfl rfl (laid_prettyFields (level + 1) fields)

theorem laid_prettyItems (level : Nat) : ∀ items : List Json,
    List.Forall₂ Laid (itemTokens items) (prettyItems level items)
  | [] => .nil
  | item :: rest => .cons (laid_prettyAt level item) (laid_prettyItems level rest)

theorem laid_prettyFields (level : Nat) : ∀ fields : List (String × Json),
    List.Forall₂ Laid (fieldTokens fields) (prettyFields level fields)
  | [] => .nil
  | (name, value) :: rest => by
    have hvalue : Laid value.tokens (' ' :: prettyAt level value) :=
      .blank rfl (laid_prettyAt level value)
    exact .cons (.token (.text name) (.token .colon hvalue)) (laid_prettyFields level rest)

end

theorem laid_pretty (v : Json) : Laid v.tokens v.pretty :=
  laid_prettyAt 0 v

theorem laid_spell (tokens : List Token) : Laid tokens (spell tokens) := by
  induction tokens with
  | nil => exact .nil
  | cons t rest ih => exact .token t ih

theorem laid_compact (v : Json) : Laid v.tokens v.compact :=
  v.spell_tokens ▸ laid_spell v.tokens

/-! ### Strings -/

/-- What a character behind a backslash stands for, if it is not the start of a number. -/
def unescape? (c : Char) : Option Char :=
  if c = '"' || c = '\\' || c = '/' then some c
  else if c = 'b' then some '\x08'
  else if c = 't' then some '\t'
  else if c = 'n' then some '\n'
  else if c = 'f' then some '\x0c'
  else if c = 'r' then some '\r'
  else none

/-- A character is written as itself, by a letter or a sign behind a backslash, or by its number. -/
theorem escapeChar_cases (c : Char) :
    (escapeChar c = [c] ∧ c ≠ '"' ∧ c ≠ '\\' ∧ 0x20 ≤ c.toNat) ∨
      (∃ letter, escapeChar c = ['\\', letter] ∧ unescape? letter = some c) ∨
      (escapeChar c = '\\' :: 'u' :: hexDigits c ∧ c.toNat < 0x20) := by
  unfold escapeChar
  -- the characters that have a letter or a sign
  iterate 7
    split
    · next h =>
      subst h
      exact .inr (.inl ⟨_, rfl, rfl⟩)
  split
  · next h => exact .inr (.inr ⟨rfl, h⟩)
  · next hquote hslash _ _ _ _ _ h => exact .inl ⟨rfl, hquote, hslash, Nat.le_of_not_lt h⟩

/-! ### Texts without white space outside of their strings -/

/-- Where a place of a text is. -/
inductive Place where
  | outside
  | inside
  /-- Inside of a string, behind a backslash. -/
  | escaped
  deriving DecidableEq, Repr

def unspacedFrom : Place → List Char → List Char
  | _, [] => []
  | .outside, c :: rest =>
    if isBlank c then unspacedFrom .outside rest
    else c :: unspacedFrom (if c = '"' then .inside else .outside) rest
  | .inside, c :: rest =>
    c :: unspacedFrom (if c = '"' then .outside else if c = '\\' then .escaped else .inside) rest
  | .escaped, c :: rest => c :: unspacedFrom .inside rest

/-- The text without the white space outside of its strings. -/
def unspaced (text : List Char) : List Char :=
  unspacedFrom .outside text

theorem unspacedFrom_plain {run : List Char} (h : ∀ c ∈ run, isBlank c = false ∧ c ≠ '"')
    (rest : List Char) :
    unspacedFrom .outside (run ++ rest) = run ++ unspacedFrom .outside rest := by
  induction run with
  | nil => rfl
  | cons c more ih =>
    obtain ⟨⟨hblank, hquote⟩, hmore⟩ := List.forall_mem_cons.mp h
    rw [List.cons_append, unspacedFrom, if_neg (by simp [hblank]), if_neg hquote, ih hmore]
    rfl

theorem unspacedFrom_inside {run : List Char} (h : ∀ c ∈ run, c ≠ '"' ∧ c ≠ '\\')
    (rest : List Char) :
    unspacedFrom .inside (run ++ rest) = run ++ unspacedFrom .inside rest := by
  induction run with
  | nil => rfl
  | cons c more ih =>
    obtain ⟨⟨hquote, hslash⟩, hmore⟩ := List.forall_mem_cons.mp h
    rw [List.cons_append, unspacedFrom, if_neg hquote, if_neg hslash, ih hmore]
    rfl

theorem hexDigits_plain {c : Char} (h : c.toNat < 0x20) :
    ∀ d ∈ hexDigits c, d ≠ '"' ∧ d ≠ '\\' := by
  have hdigit : ∀ n < 16, Nat.digitChar n ≠ '"' ∧ Nat.digitChar n ≠ '\\' := by decide
  simp only [hexDigits, List.forall_mem_cons]
  refine ⟨by decide, by decide, hdigit _ (by omega), hdigit _ (by omega), by simp⟩

theorem unspacedFrom_escapeChar (c : Char) (rest : List Char) :
    unspacedFrom .inside (escapeChar c ++ rest) = escapeChar c ++ unspacedFrom .inside rest := by
  rcases escapeChar_cases c with ⟨heq, hquote, hslash, -⟩ | ⟨letter, heq, -⟩ | ⟨heq, hlow⟩
  · rw [heq]
    exact unspacedFrom_inside (by simp [hquote, hslash]) rest
  · rw [heq]
    rfl
  · rw [heq]
    have hdigits := unspacedFrom_inside (hexDigits_plain hlow) rest
    exact congrArg (fun text => '\\' :: 'u' :: text) hdigits

theorem unspacedFrom_quote (s : String) (rest : List Char) :
    unspacedFrom .outside (quote s ++ rest) = quote s ++ unspacedFrom .outside rest := by
  have hinside (text : List Char) : unspacedFrom .inside (text.flatMap escapeChar ++ '"' :: rest) =
      text.flatMap escapeChar ++ '"' :: unspacedFrom .outside rest := by
    induction text with
    | nil => rfl
    | cons c more ih =>
      rw [List.flatMap_cons, List.append_assoc, unspacedFrom_escapeChar, ih, List.append_assoc]
  unfold quote
  rw [List.cons_append, List.cons_append, List.append_assoc, List.append_assoc]
  exact congrArg (List.cons '"') (hinside s.toList)

theorem isDigit_of_mem_writeNumber {n : Nat} {c : Char} (h : c ∈ writeNumber n) :
    c.isDigit = true :=
  Nat.isDigit_of_mem_toDigits (by decide) (by decide) h

theorem writeNumber_plain (n : Nat) : ∀ c ∈ writeNumber n, isBlank c = false ∧ c ≠ '"' := by
  intro c hc
  have hdigit : c.isDigit = true := isDigit_of_mem_writeNumber hc
  refine ⟨isBlank_of_isAlphanum (by rw [Char.isAlphanum, hdigit, Bool.or_true]), ?_⟩
  rintro rfl
  cases hdigit

theorem unspacedFrom_spelling (t : Token) (rest : List Char) :
    unspacedFrom .outside (t.spelling ++ rest) = t.spelling ++ unspacedFrom .outside rest := by
  cases t with
  | number n => exact unspacedFrom_plain (writeNumber_plain n) rest
  | text s => exact unspacedFrom_quote s rest
  | bool b =>
    have hplain : ∀ c ∈ writeBool b, isBlank c = false ∧ c ≠ '"' := by
      cases b <;> simp [writeBool, isBlank]
    exact unspacedFrom_plain hplain rest
  | _ => exact unspacedFrom_plain (by simp [Token.spelling, isBlank]) rest

theorem Laid.unspaced_eq {tokens : List Token} {text : List Char} (h : Laid tokens text) :
    unspaced text = spell tokens := by
  unfold unspaced
  induction h with
  | nil => rfl
  | blank hc _ ih => rw [unspacedFrom, if_pos hc, ih]
  | token t _ ih =>
    rw [unspacedFrom_spelling, ih]
    rfl

theorem unspaced_pretty (v : Json) : unspaced v.pretty = v.compact :=
  (laid_pretty v).unspaced_eq.trans v.spell_tokens

end MarkerSweep.Json
