import MarkerSweep.Proofs.Json.Lexer

/-!
# Reading JSON texts

`read?` gives the value of a text, if the text is cut into the tokens of one. Both written forms of
a value are read back as that value: `read?_pretty` and `read?_compact`.
-/

namespace MarkerSweep.Json

/-- What was read from the front of tokens, and the tokens behind it, which are fewer. -/
abbrev Parsed (α : Type) (tokens : List Token) : Type :=
  Option (α × { rest : List Token // rest.length < tokens.length })

mutual

def readValue : (tokens : List Token) → Parsed Json tokens
  | .bool b :: rest => some (.bool b, ⟨rest, Nat.lt_succ_self _⟩)
  | .number n :: rest => some (.number n, ⟨rest, Nat.lt_succ_self _⟩)
  | .text s :: rest => some (.text s, ⟨rest, Nat.lt_succ_self _⟩)
  | .openList :: .closeList :: rest => some (.list [], ⟨rest, Nat.lt_add_of_pos_right Nat.two_pos⟩)
  | .openList :: rest =>
    match readItems rest with
    | some (items, ⟨later, h⟩) => some (.list items, ⟨later, Nat.lt_succ_of_lt h⟩)
    | none => none
  | .openObject :: .closeObject :: rest =>
    some (.object [], ⟨rest, Nat.lt_add_of_pos_right Nat.two_pos⟩)
  | .openObject :: rest =>
    match readFields rest with
    | some (fields, ⟨later, h⟩) => some (.object fields, ⟨later, Nat.lt_succ_of_lt h⟩)
    | none => none
  | _ => none
termination_by tokens => (tokens.length, 0)

/-- The items of a list and the bracket that closes it. -/
def readItems (tokens : List Token) : Parsed (List Json) tokens :=
  match readValue tokens with
  | some (item, ⟨.closeList :: rest, h⟩) => some ([item], ⟨rest, Nat.lt_of_succ_lt h⟩)
  | some (item, ⟨.comma :: rest, h⟩) =>
    match readItems rest with
    | some (items, ⟨later, h'⟩) =>
      some (item :: items, ⟨later, Nat.lt_trans h' (Nat.lt_of_succ_lt h)⟩)
    | none => none
  | _ => none
termination_by (tokens.length, 1)
decreasing_by
  · exact Prod.Lex.right _ (by decide)
  · exact Prod.Lex.left _ _ (Nat.lt_of_succ_lt h)

/-- The fields of an object and the bracket that closes it. -/
def readFields : (tokens : List Token) → Parsed (List (String × Json)) tokens
  | .text name :: .colon :: rest =>
    match readValue rest with
    | some (value, ⟨.closeObject :: later, h⟩) =>
      some ([(name, value)], ⟨later, Nat.lt_add_right 2 (Nat.lt_of_succ_lt h)⟩)
    | some (value, ⟨.comma :: later, h⟩) =>
      match readFields later with
      | some (fields, ⟨last, h'⟩) =>
        some ((name, value) :: fields,
          ⟨last, Nat.lt_add_right 2 (Nat.lt_trans h' (Nat.lt_of_succ_lt h))⟩)
      | none => none
    | _ => none
  | _ => none
termination_by tokens => (tokens.length, 0)
decreasing_by
  · exact Prod.Lex.left _ _ (Nat.lt_add_of_pos_right Nat.two_pos)
  · exact Prod.Lex.left _ _ (Nat.lt_add_right 2 (Nat.lt_of_succ_lt h))

end

/-- The value of tokens, if they are those of a value. -/
def readAll (tokens : List Token) : Option Json :=
  match readValue tokens with
  | some (v, ⟨[], _⟩) => some v
  | _ => none

def read? (text : List Char) : Option Json :=
  (lex text).bind readAll

/-! ### Tokens of values -/

/-- Reading these tokens gives this, and leaves the rest. -/
def Reads {α : Type} (read : (tokens : List Token) → Parsed α tokens) (tokens : List Token) (a : α)
    (rest : List Token) : Prop :=
  ∃ h, read tokens = some (a, ⟨rest, h⟩)

section

variable {tokens rest later : List Token} {v : Json}

theorem Reads.last_item (h : Reads readValue tokens v (.closeList :: rest)) :
    Reads readItems tokens [v] rest := by
  obtain ⟨hlt, h⟩ := h
  exact ⟨Nat.lt_of_succ_lt hlt, by rw [readItems, h]⟩

theorem Reads.next_item {items : List Json} (h : Reads readValue tokens v (.comma :: rest))
    (h' : Reads readItems rest items later) : Reads readItems tokens (v :: items) later := by
  obtain ⟨hlt, h⟩ := h
  obtain ⟨hlt', h'⟩ := h'
  refine ⟨Nat.lt_trans hlt' (Nat.lt_of_succ_lt hlt), ?_⟩
  rw [readItems, h]
  simp only
  rw [h']

theorem Reads.last_field (name : String) (h : Reads readValue tokens v (.closeObject :: rest)) :
    Reads readFields (.text name :: .colon :: tokens) [(name, v)] rest := by
  obtain ⟨hlt, h⟩ := h
  exact ⟨Nat.lt_add_right 2 (Nat.lt_of_succ_lt hlt), by rw [readFields, h]⟩

theorem Reads.next_field (name : String) {fields : List (String × Json)}
    (h : Reads readValue tokens v (.comma :: rest)) (h' : Reads readFields rest fields later) :
    Reads readFields (.text name :: .colon :: tokens) ((name, v) :: fields) later := by
  obtain ⟨hlt, h⟩ := h
  obtain ⟨hlt', h'⟩ := h'
  refine ⟨Nat.lt_add_right 2 (Nat.lt_trans hlt' (Nat.lt_of_succ_lt hlt)), ?_⟩
  rw [readFields, h]
  simp only
  rw [h']

theorem Reads.list {items : List Json} (h : Reads readItems tokens items rest) :
    Reads readValue (.openList :: tokens) (.list items) rest := by
  obtain ⟨hlt, h⟩ := h
  -- items do not start with the bracket that would close the empty list
  have hopen : ∀ more, tokens ≠ .closeList :: more := by
    rintro more rfl
    simp [readItems, readValue] at h
  refine ⟨Nat.lt_succ_of_lt hlt, ?_⟩
  rw [readValue, h]
  exact hopen

theorem Reads.object {fields : List (String × Json)} (h : Reads readFields tokens fields rest) :
    Reads readValue (.openObject :: tokens) (.object fields) rest := by
  obtain ⟨hlt, h⟩ := h
  have hopen : ∀ more, tokens ≠ .closeObject :: more := by
    rintro more rfl
    simp [readFields] at h
  refine ⟨Nat.lt_succ_of_lt hlt, ?_⟩
  rw [readValue, h]
  exact hopen

end

mutual

theorem reads_tokens : ∀ (v : Json) (rest : List Token), Reads readValue (v.tokens ++ rest) v rest
  | .bool b, rest => by
    show Reads readValue (.bool b :: rest) _ rest
    exact ⟨Nat.lt_succ_self _, by rw [readValue]⟩
  | .number n, rest => by
    show Reads readValue (.number n :: rest) _ rest
    exact ⟨Nat.lt_succ_self _, by rw [readValue]⟩
  | .text s, rest => by
    show Reads readValue (.text s :: rest) _ rest
    exact ⟨Nat.lt_succ_self _, by rw [readValue]⟩
  | .list [], rest => by
    show Reads readValue (.openList :: .closeList :: rest) _ rest
    exact ⟨Nat.lt_add_of_pos_right Nat.two_pos, by rw [readValue]⟩
  | .object [], rest => by
    show Reads readValue (.openObject :: .closeObject :: rest) _ rest
    exact ⟨Nat.lt_add_of_pos_right Nat.two_pos, by rw [readValue]⟩
  | .list (item :: items), rest => by
    have h := reads_itemTokens (item :: items) (by simp) rest
    rw [tokens, List.cons_append, List.append_assoc]
    exact h.list
  | .object (field :: fields), rest => by
    have h := reads_fieldTokens (field :: fields) (by simp) rest
    rw [tokens, List.cons_append, List.append_assoc]
    exact h.object

theorem reads_itemTokens : ∀ items : List Json, items ≠ [] → ∀ rest : List Token,
    Reads readItems (separated (itemTokens items) ++ .closeList :: rest) items rest
  | [], hne, _ => absurd rfl hne
  | [item], _, rest => by
    rw [itemTokens, itemTokens, separated, List.intercalate_singleton]
    exact (reads_tokens item _).last_item
  | item :: second :: more, _, rest => by
    have h := reads_itemTokens (second :: more) (by simp) rest
    rw [itemTokens, itemTokens, separated, List.intercalate_cons_cons, List.append_assoc,
      List.append_assoc]
    exact (reads_tokens item _).next_item h

theorem reads_fieldTokens : ∀ fields : List (String × Json), fields ≠ [] → ∀ rest : List Token,
    Reads readFields (separated (fieldTokens fields) ++ .closeObject :: rest) fields rest
  | [], hne, _ => absurd rfl hne
  | [(name, value)], _, rest => by
    rw [fieldTokens, fieldTokens, separated, List.intercalate_singleton]
    exact (reads_tokens value _).last_field name
  | (name, value) :: second :: more, _, rest => by
    have h := reads_fieldTokens (second :: more) (by simp) rest
    rw [fieldTokens, fieldTokens, separated, List.intercalate_cons_cons, List.append_assoc,
      List.append_assoc]
    exact (reads_tokens value _).next_field name h

end

theorem readAll_tokens (v : Json) : readAll v.tokens = some v := by
  have h := reads_tokens v []
  rw [List.append_nil] at h
  obtain ⟨_, h⟩ := h
  rw [readAll, h]

/-! ### Texts of values -/

theorem read?_eq_of_lex {text : List Char} {v : Json} (h : lex text = some v.tokens) :
    read? text = some v := by
  rw [read?, h]
  exact readAll_tokens v

theorem lex_pretty (v : Json) : lex v.pretty = some v.tokens :=
  lex_eq_of_laid (laid_pretty v) (apart_tokens v)

theorem lex_compact (v : Json) : lex v.compact = some v.tokens :=
  lex_eq_of_laid (laid_compact v) (apart_tokens v)

theorem read?_pretty (v : Json) : read? v.pretty = some v :=
  read?_eq_of_lex (lex_pretty v)

theorem read?_compact (v : Json) : read? v.compact = some v :=
  read?_eq_of_lex (lex_compact v)

end MarkerSweep.Json
