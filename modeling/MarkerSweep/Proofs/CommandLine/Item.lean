import MarkerSweep.CommandLine.Request
import MarkerSweep.Text.Utf8.RoundTrip

/-!
# Items of a command line

An item gives one switch, or one option its value, and is written as one argument or two.
`bytes_ofBytes` says that an argument has all the bytes that it was read from, and
`ofBytes_eq_plain_iff` which bytes can be a value by themselves.
-/

namespace MarkerSweep.CommandLine

/-! ### Arguments and their bytes -/

def Argument.bytes : Argument → Bytes
  | .escape => [hyphen, hyphen]
  | .long name none => hyphen :: hyphen :: name
  | .long name (some value) => hyphen :: hyphen :: (name ++ equals :: value)
  | .cluster letters => hyphen :: letters
  | .plain text => text

/-- An argument that is told by no hyphen at its start. -/
def StandsAlone (value : Bytes) : Prop :=
  value = [hyphen] ∨ value.head? ≠ some hyphen

theorem splitEquals_cases (bytes : Bytes) :
    splitEquals bytes = (bytes, none) ∨
      ∃ name value, bytes = name ++ equals :: value ∧ splitEquals bytes = (name, some value) := by
  induction bytes with
  | nil => exact .inl rfl
  | cons b rest ih =>
    rw [splitEquals]
    by_cases h : b = equals
    · rw [if_pos h]
      exact .inr ⟨[], rest, by rw [h]; rfl, rfl⟩
    · rw [if_neg h]
      rcases ih with heq | ⟨name, value, rfl, heq⟩
      · exact .inl (by rw [heq])
      · exact .inr ⟨b :: name, value, rfl, by rw [heq]⟩

theorem Argument.bytes_ofBytes (bytes : Bytes) : (ofBytes bytes).bytes = bytes := by
  unfold ofBytes
  split
  · next a b rest =>
    by_cases ha : a = hyphen
    · by_cases hb : b = hyphen
      · rw [if_pos ha, if_pos hb, ha, hb]
        by_cases hrest : rest = []
        · rw [if_pos hrest, hrest]
          rfl
        · rw [if_neg hrest]
          rcases splitEquals_cases rest with heq | ⟨name, value, hsplit, heq⟩
          · rw [heq]
            rfl
          · rw [heq, hsplit]
            rfl
      · rw [if_pos ha, if_neg hb, ha]
        rfl
    · rw [if_neg ha]
      rfl
  · rfl

theorem Argument.ofBytes_eq_plain_iff {bytes text : Bytes} :
    ofBytes bytes = .plain text ↔ bytes = text ∧ StandsAlone text := by
  unfold StandsAlone
  constructor
  · intro h
    have hbytes := bytes_ofBytes bytes
    rw [h] at hbytes
    obtain rfl : text = bytes := hbytes
    refine ⟨rfl, ?_⟩
    unfold ofBytes at h
    split at h
    · next a b rest =>
      by_cases ha : a = hyphen
      · rw [if_pos ha] at h
        split at h
        · split at h <;> cases h
        · cases h
      · exact .inr fun heq => ha (Option.some.inj heq)
    · next hshort =>
      match text with
      | [] => exact .inr (by simp)
      | [a] => by_cases ha : a = hyphen <;> simp [ha]
      | a :: b :: rest => exact absurd rfl (hshort a b rest)
  · rintro ⟨rfl, hyph | hfirst⟩
    · rw [hyph]
      rfl
    · unfold ofBytes
      split
      · next a b rest =>
        rw [if_neg]
        rintro rfl
        exact hfirst rfl
      · rfl

theorem Argument.ofBytes_ne_cluster_nil (bytes : Bytes) : ofBytes bytes ≠ .cluster [] := by
  intro h
  have hbytes := bytes_ofBytes bytes
  rw [h] at hbytes
  rw [← hbytes] at h
  cases h

theorem pieces_ne_nil {bytes : Bytes} (hne : bytes ≠ []) : Utf8.pieces bytes ≠ [] := by
  intro h
  have hnil : Utf8.encode [] = bytes := Utf8.encode_of_pieces h
  exact hne hnil.symm

/-! ### Items -/

/-- The argument that names something: its name behind two hyphens. -/
def Declared.argument (d : Declared) : Bytes :=
  hyphen :: hyphen :: Utf8.ofString d.name

theorem Declared.mem_all (d : Declared) (hd : d ≠ .question (.help false)) : d ∈ all := by
  cases d with
  | switch s => cases s <;> decide
  | field f => cases f <;> decide
  | question q =>
    cases q with
    | help full => cases full with
      | false => exact absurd rfl hd
      | true => decide
    | version => decide

theorem Declared.ofBytes_argument : ∀ d ∈ all,
    Argument.ofBytes d.argument = .long (Utf8.ofString d.name) none := by
  decide +kernel

theorem Declared.ofBytes_argument_value {d : Declared} (hd : d ∈ all) (value : Bytes) :
    Argument.ofBytes (d.argument ++ equals :: value) =
      .long (Utf8.ofString d.name) (some value) := by
  have hname : ∀ d ∈ all, equals ∉ Utf8.ofString d.name := by decide +kernel
  simp [argument, Argument.ofBytes, splitEquals_append (hname d hd)]

theorem Declared.name_of_ofName? {name : Bytes} {d : Declared} (h : ofName? name = some d) :
    name = Utf8.ofString d.name := by
  have hfound := List.find?_some h
  exact (of_decide_eq_true hfound).symm

/-- A part of a command line that gives one setting. -/
inductive Item where
  /-- A switch by its letter. -/
  | letter
  | switch (s : Switch)
  /-- An option with its value in the same argument. -/
  | joined (f : Field) (value : Bytes)
  /-- An option with its value in an argument of its own. -/
  | apart (f : Field) (value : Bytes)
  deriving DecidableEq, Repr

/-- What a value has to be: a root is not empty, anything else is the UTF-8 of some text. -/
def Field.Admits (f : Field) (value : Bytes) : Prop :=
  match f with
  | .root => value ≠ []
  | .extension | .marker => ∃ text, value = Utf8.encode text

namespace Item

def arguments : Item → List Bytes
  | .letter => [Utf8.ofString "-v"]
  | .switch s => [Declared.argument (.switch s)]
  | .joined f value => [Declared.argument (.field f) ++ equals :: value]
  | .apart f value => [Declared.argument (.field f), value]

/-- What an item gives. -/
def subject : Item → Declared
  | .letter => .switch .verbose
  | .switch s => .switch s
  | .joined f _ => .field f
  | .apart f _ => .field f

def value? (f : Field) : Item → Option Bytes
  | .joined g value => if g = f then some value else none
  | .apart g value => if g = f then some value else none
  | _ => none

/-- The value of the item, if it has one, is one that its option can have. -/
def Admissible : Item → Prop
  | .joined f value => f.Admits value
  | .apart f value => f.Admits value
  | _ => True

/-- A value in an argument of its own is not taken for anything else. -/
def WellSpelled : Item → Prop
  | .apart _ value => StandsAlone value
  | _ => True

theorem arguments_ne_nil (i : Item) : i.arguments ≠ [] := by
  cases i <;> simp [arguments]

theorem value?_eq_none_iff {f : Field} {i : Item} : i.value? f = none ↔ i.subject ≠ .field f := by
  cases i <;> simp [value?, subject]

theorem subject_of_value? {f : Field} {i : Item} {value : Bytes} (h : i.value? f = some value) :
    i.subject = .field f := by
  cases i with
  | letter => cases h
  | switch s => cases h
  | joined g v => exact congrArg Declared.field (Option.ite_none_right_eq_some.mp h).1
  | apart g v => exact congrArg Declared.field (Option.ite_none_right_eq_some.mp h).1

theorem admits_of_value? {f : Field} {i : Item} {value : Bytes} (hi : i.Admissible)
    (h : i.value? f = some value) : f.Admits value := by
  cases i with
  | letter => cases h
  | switch s => cases h
  | joined g v =>
    obtain ⟨rfl, hv⟩ := Option.ite_none_right_eq_some.mp h
    exact Option.some.inj hv ▸ hi
  | apart g v =>
    obtain ⟨rfl, hv⟩ := Option.ite_none_right_eq_some.mp h
    exact Option.some.inj hv ▸ hi

end Item

theorem Field.valueError?_eq_none_iff {f : Field} {value : Bytes} :
    f.valueError? value = none ↔ f.Admits value := by
  have htext : (∃ text, text? value = .ok text) ↔ ∃ text, value = Utf8.encode text := by
    simp only [← Utf8.decode_eq_ok_iff, text?]
    cases Utf8.decode value with
    | ok text => simp
    | error fault => simp
  cases f with
  | root => simp [valueError?, Admits]
  | extension =>
    rw [Admits, ← htext, valueError?]
    cases text? value with
    | ok text => simp
    | error e => simp
  | marker =>
    rw [Admits, ← htext, valueError?]
    cases text? value with
    | ok text => simp
    | error e => simp

/-- What is wrong with the values that an option cannot have. -/
def Field.refusal : Field → UsageError
  | .root => .missingValue .root
  | .extension => .notText
  | .marker => .notText

theorem Field.eq_refusal {f : Field} {value : Bytes} {e : UsageError}
    (h : f.valueError? value = some e) : e = f.refusal := by
  have htext : ∀ e', text? value = .error e' → e' = .notText := by
    unfold text?
    cases Utf8.decode value with
    | ok text => simp
    | error fault => simp [eq_comm]
  cases f with
  | root =>
    obtain ⟨-, h⟩ := Option.ite_none_right_eq_some.mp h
    exact (Option.some.inj h).symm
  | _ =>
    rw [valueError?] at h
    cases hvalue : text? value with
    | ok text =>
      rw [hvalue] at h
      cases h
    | error e' =>
      rw [hvalue] at h
      obtain rfl := Option.some.inj h
      exact htext _ hvalue

end MarkerSweep.CommandLine
