import MarkerSweep.Job
import Mathlib.Data.List.DropRight

/-!
# Checked settings

Settings make a job unless they are faulty, and then there is none.
-/

namespace MarkerSweep

theorem Path.dropDots_dropDots (s : String) : dropDots (dropDots s) = dropDots s := by
  unfold dropDots
  rw [String.toList_ofList, List.dropWhile_idempotent]

namespace Settings

/-- No job has these settings: the extension is empty behind its full stops, or the marker cannot be
one. -/
def Faulty (s : Settings) : Prop :=
  Path.dropDots s.extension = "" ∨ ¬ Marker.Serves s.marker

instance (s : Settings) : Decidable s.Faulty :=
  inferInstanceAs (Decidable (_ ∨ _))

theorem marker?_eq_ok_iff {s : Settings} : (∃ m, s.marker? = .ok m) ↔ ¬ s.Faulty := by
  unfold marker? Faulty
  rw [not_or, not_not, ← Marker.ofText?_eq_ok_iff]
  by_cases h : Path.dropDots s.extension = ""
  · simp [h]
  · rw [if_neg h]
    cases Marker.ofText? s.marker <;> simp [h]

theorem marker?_eq_emptyExtension_iff {s : Settings} :
    s.marker? = .error .emptyExtension ↔ Path.dropDots s.extension = "" := by
  unfold marker?
  by_cases h : Path.dropDots s.extension = ""
  · simp [h]
  · rw [if_neg h]
    cases Marker.ofText? s.marker <;> simp [h]

theorem not_faulty_iff {s : Settings} :
    ¬ s.Faulty ↔ Path.dropDots s.extension ≠ "" ∧ Marker.Serves s.marker := by
  unfold Faulty
  rw [not_or, not_not]

end Settings

namespace Job

theorem eq_of_settings {j j' : Job} (hj : j.settings = j'.settings) : j = j' := by
  obtain ⟨settings, marker, hmarker⟩ := j
  obtain ⟨settings', marker', hmarker'⟩ := j'
  obtain rfl : settings = settings' := hj
  obtain rfl := Except.ok.inj (hmarker.symm.trans hmarker')
  rfl

theorem ofSettings?_eq_ok {s : Settings} {m : Marker} (hm : s.marker? = .ok m) :
    ofSettings? s = .ok ⟨s, m, hm⟩ := by
  unfold ofSettings?
  split
  · next m' hm' =>
    obtain rfl := Except.ok.inj (hm.symm.trans hm')
    rfl
  · next fault he =>
    rw [hm] at he
    cases he

theorem ofSettings?_eq_error {s : Settings} {fault : Settings.Fault}
    (hm : s.marker? = .error fault) : ofSettings? s = .error fault := by
  unfold ofSettings?
  split
  · next m he =>
    rw [hm] at he
    cases he
  · next fault' he => exact congrArg Except.error (Except.error.inj (he.symm.trans hm))

theorem exists_of_not_faulty {s : Settings} (hs : ¬ s.Faulty) :
    ∃ j : Job, j.settings = s ∧ ofSettings? s = .ok j := by
  obtain ⟨m, hm⟩ := Settings.marker?_eq_ok_iff.mpr hs
  exact ⟨_, rfl, ofSettings?_eq_ok hm⟩

theorem exists_fault_of_faulty {s : Settings} (hs : s.Faulty) :
    ∃ fault, ofSettings? s = .error fault := by
  cases hm : s.marker? with
  | error fault => exact ⟨fault, ofSettings?_eq_error hm⟩
  | ok m => exact absurd hs (Settings.marker?_eq_ok_iff.mp ⟨m, hm⟩)

theorem ofSettings?_eq_error_iff {s : Settings} {fault : Settings.Fault} :
    ofSettings? s = .error fault ↔ s.marker? = .error fault := by
  cases hm : s.marker? with
  | ok m => simp [ofSettings?_eq_ok hm]
  | error fault' => simp [ofSettings?_eq_error hm]

theorem exists_ofSettings?_iff {s : Settings} : (∃ j, ofSettings? s = .ok j) ↔ ¬ s.Faulty := by
  constructor
  · rintro ⟨j, hj⟩ hfaulty
    obtain ⟨fault, he⟩ := exists_fault_of_faulty hfaulty
    cases hj.symm.trans he
  · intro hfaulty
    obtain ⟨j, -, hj⟩ := exists_of_not_faulty hfaulty
    exact ⟨j, hj⟩

end Job

end MarkerSweep
