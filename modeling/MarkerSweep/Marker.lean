import MarkerSweep.Text.Utf8
import MarkerSweep.Token

/-!
# Markers

A marker is the literal text that a token starts with, after its space. Any text serves, also one
with spaces or quotes in it, if it is not empty and not too long.
-/

namespace MarkerSweep

/-- The length in UTF-8 bytes up to which a text serves as a marker. -/
def Marker.maxLength : Nat := 327612

/-- A text that tokens start with. -/
structure Marker where
  text : String
  text_ne_empty : text ≠ ""
  length_le : text.utf8ByteSize ≤ Marker.maxLength

namespace Marker

inductive Fault where
  | empty
  | tooLong
  deriving DecidableEq, Repr

def Fault.message : Fault → String
  | .empty => "Marker prefix must not be empty"
  | .tooLong => "Invalid token pattern: Compiled regex exceeds size limit of 10485760 bytes."

def ofText? (text : String) : Except Fault Marker :=
  if h : text = "" then .error .empty
  else if hl : text.utf8ByteSize ≤ maxLength then .ok ⟨text, h, hl⟩
  else .error .tooLong

/-- Whether a text can be a marker. -/
def Serves (text : String) : Prop :=
  text ≠ "" ∧ text.utf8ByteSize ≤ maxLength

instance (text : String) : Decidable (Serves text) :=
  inferInstanceAs (Decidable (_ ∧ _))

/-- The marker of dark-mode utility classes. -/
def dark : Marker := ⟨"dark:", by decide, by decide⟩

/-- The text without the tokens of this marker, and how many there were. -/
def sweep (m : Marker) (text : List Char) : Swept :=
  MarkerSweep.sweep m.text.toList text

def strip (m : Marker) (text : List Char) : List Char :=
  (m.sweep text).text

def stripDark (text : List Char) : List Char :=
  dark.strip text

/-- Sweeps a text with each of several markers in turn. A text that is no marker leaves the text as
it was. -/
def sweepEach (text : List Char) : List String → List (Except Fault Swept)
  | [] => []
  | marker :: rest =>
    match ofText? marker with
    | .ok m => .ok (m.sweep text) :: sweepEach (m.sweep text).text rest
    | .error e => .error e :: sweepEach text rest

theorem ofText?_text (m : Marker) : ofText? m.text = .ok m := by
  simp [ofText?, m.text_ne_empty, m.length_le]

theorem text_of_ofText? {text : String} {m : Marker} (h : ofText? text = .ok m) :
    m.text = text := by
  unfold ofText? at h
  split at h
  · cases h
  · split at h
    · cases h; rfl
    · cases h

theorem ofText?_eq_ok_iff {text : String} : (∃ m, ofText? text = .ok m) ↔ Serves text := by
  unfold ofText? Serves
  by_cases h : text = ""
  · simp [h]
  · by_cases hl : text.utf8ByteSize ≤ maxLength
    · simp [h, hl]
    · simp [h, hl]

theorem not_serves_of_error {text : String} {fault : Fault} (h : ofText? text = .error fault) :
    ¬ Serves text := by
  intro hserves
  obtain ⟨m, hm⟩ := ofText?_eq_ok_iff.mpr hserves
  rw [hm] at h
  cases h

theorem dark_plain : ∀ c ∈ dark.text.toList, Text.isDelimiter c = false := by
  have hall : dark.text.toList.all (fun c => !Text.isDelimiter c) = true := by decide
  intro c hc
  simpa using List.all_eq_true.mp hall c hc

end Marker

end MarkerSweep
