import MarkerSweep.Proofs.CommandLine.Grammar

/-!
# Command lines in an environment

`parse_in_environment`: variables add to what a command line says and never change it. Of a line
that is read to its end, the options that it leaves out are looked for in the environment, in their
order, and the first variable that cannot be their value is the fault.
-/

namespace MarkerSweep.CommandLine

/-- The options, in the order in which the environment is asked for them. -/
def Field.inOrder : List Field := [.root, .extension, .marker]

abbrev unset : PerField (Option Bytes) := .all none

theorem get_unset (f : Field) : unset.get f = none := by
  cases f <;> rfl

/-- The value that a request has for an option. -/
def Request.valueOf (r : Request) : Field → Bytes
  | .root => r.root.bytes
  | .extension => Utf8.ofString r.extension
  | .marker => Utf8.ofString r.marker

/-! ### Asking the environment -/

namespace Reading

variable {r z : Reading} {environment environment' : PerField (Option Bytes)} {f g : Field}
  {stop : Stop}

theorem consultAll_eq (r : Reading) (environment : PerField (Option Bytes)) :
    r.consultAll environment = Field.inOrder.foldlM (fun r f => r.consult environment f) r := by
  simp [consultAll, Field.inOrder]

/-- The environment is not asked for an option, or what it has is a value for it. -/
def Tolerates (r : Reading) (environment : PerField (Option Bytes)) (f : Field) : Prop :=
  r.values.get f = none → ∀ value, environment.get f = some value → f.Admits value

theorem exists_consult (h : r.Tolerates environment f) : ∃ z, r.consult environment f = .ok z :=
  ⟨_, consult_eq_ok_iff.mpr ⟨h, rfl⟩⟩

theorem consult_refused (h : ¬ r.Tolerates environment f) :
    r.consult environment f = .error (.error f.refusal) := by
  obtain ⟨hfresh, h⟩ := Classical.not_imp.mp h
  obtain ⟨value, h⟩ := Classical.not_forall.mp h
  obtain ⟨hvariable, hvalue⟩ := Classical.not_imp.mp h
  rw [← Field.valueError?_eq_none_iff, ← ne_eq, Option.ne_none_iff_exists'] at hvalue
  obtain ⟨e, he⟩ := hvalue
  rw [consult, hfresh, hvariable]
  simp [store, hfresh, he, Field.eq_refusal he]

/-- Asking for one option makes no difference to the others. -/
theorem get_of_consult (hz : r.consult environment g = .ok z) (hf : f ≠ g) :
    z.values.get f = r.values.get f := by
  obtain ⟨-, rfl⟩ := consult_eq_ok_iff.mp hz
  rw [PerField.get_set, if_neg hf]

theorem Tolerates.of_consult (h : r.Tolerates environment f)
    (hz : r.consult environment g = .ok z) (hf : f ≠ g) : z.Tolerates environment f := by
  unfold Tolerates
  rw [get_of_consult hz hf]
  exact h

theorem foldlM_refused {before after : List Field} (hnodup : (before ++ f :: after).Nodup)
    (hbefore : ∀ g ∈ before, r.Tolerates environment g) (hf : ¬ r.Tolerates environment f) :
    (before ++ f :: after).foldlM (fun r f => r.consult environment f) r =
      .error (.error f.refusal) := by
  induction before generalizing r with
  | nil =>
    rw [List.nil_append, List.foldlM_cons, consult_refused hf]
    rfl
  | cons g rest ih =>
    obtain ⟨htolerates, hrest⟩ := List.forall_mem_cons.mp hbefore
    obtain ⟨hfresh, hnodup⟩ := List.nodup_cons.mp hnodup
    obtain ⟨z, hz⟩ := exists_consult htolerates
    -- each option comes once, so that `g` leaves the answer for `f` open
    have hother : f ≠ g := by
      rintro rfl
      exact hfresh (List.mem_append_right rest List.mem_cons_self)
    rw [List.cons_append, List.foldlM_cons, hz]
    apply ih hnodup
    · intro g' hg'
      refine (hrest g' hg').of_consult hz ?_
      rintro rfl
      exact hfresh (List.mem_append_left _ hg')
    · intro h
      apply hf
      unfold Tolerates
      rw [← get_of_consult hz hother]
      exact h

/-- The first variable that is refused is the fault. -/
theorem consultAll_refused {before after : List Field}
    (horder : Field.inOrder = before ++ f :: after)
    (hbefore : ∀ g ∈ before, r.Tolerates environment g) (hf : ¬ r.Tolerates environment f) :
    r.consultAll environment = .error (.error f.refusal) := by
  have hnodup : Field.inOrder.Nodup := by decide
  rw [consultAll_eq]
  rw [horder] at hnodup ⊢
  exact foldlM_refused hnodup hbefore hf

theorem foldlM_congr {fields : List Field}
    (h : ∀ f, r.values.get f = none → environment.get f = environment'.get f) :
    fields.foldlM (fun r f => r.consult environment f) r =
      fields.foldlM (fun r f => r.consult environment' f) r := by
  induction fields generalizing r with
  | nil => rfl
  | cons g rest ih =>
    have hsame : r.consult environment g = r.consult environment' g := by
      unfold consult
      cases hv : r.values.get g with
      | some value => rfl
      | none => rw [h g hv]
    rw [List.foldlM_cons, List.foldlM_cons, ← hsame]
    cases hz : r.consult environment g with
    | error stop => rfl
    | ok z =>
      -- what is without a value after `g` was without one before
      refine ih fun f hf => h f ?_
      obtain ⟨-, rfl⟩ := consult_eq_ok_iff.mp hz
      rw [PerField.get_set] at hf
      split at hf
      · next hfg =>
        rw [hfg]
        exact (Option.or_eq_none_iff.mp hf).1
      · exact hf

/-- Variables of options that have a value are not looked at. -/
theorem consultAll_congr
    (h : ∀ f, r.values.get f = none → environment.get f = environment'.get f) :
    r.consultAll environment = r.consultAll environment' := by
  rw [consultAll_eq, consultAll_eq]
  exact foldlM_congr h

theorem consultAll_unset (r : Reading) : ∃ z, r.consultAll unset = .ok z := by
  refine ⟨_, consultAll_eq_ok_iff.mpr ⟨?_, rfl⟩⟩
  intro f _ value hvalue
  rw [get_unset] at hvalue
  cases hvalue

end Reading

/-! ### Lines in two environments -/

variable {environment environment' : PerField (Option Bytes)} {arguments : List Bytes}
  {stop : Stop} {r r' : Request}

theorem parse_eq_error_of_unset (h : parse arguments unset = .error stop)
    (environment : PerField (Option Bytes)) : parse arguments environment = .error stop := by
  rcases Reading.bind_eq_error_iff.mp h with h | ⟨r, -, h⟩
  · exact Reading.bind_eq_error_iff.mpr (.inl h)
  · obtain ⟨z, hz⟩ := r.consultAll_unset
    rw [hz] at h
    cases h

namespace Line

variable {l : Line}

/-- The line gives an option, or the variable of the option, if it is set, is a value for it. -/
def Tolerates (l : Line) (environment : PerField (Option Bytes)) (f : Field) : Prop :=
  .field f ∉ l.subjects → ∀ value, environment.get f = some value → f.Admits value

/-- What the environment gives for an option that the line leaves out. -/
def fallback? (l : Line) (environment : PerField (Option Bytes)) (f : Field) : Option Bytes :=
  if .field f ∈ l.subjects then none else environment.get f

theorem get_ofItems_eq_none_iff {f : Field} :
    (Reading.ofItems l.items).values.get f = none ↔ .field f ∉ l.subjects := by
  rw [← value?_eq_none_iff]
  exact Eq.to_iff (congrArg (· = none) (PerField.get_ofFun _ f))

theorem tolerates_iff {f : Field} :
    (Reading.ofItems l.items).Tolerates environment f ↔ l.Tolerates environment f := by
  unfold Tolerates Reading.Tolerates
  rw [get_ofItems_eq_none_iff]

theorem WellFormed.parse_eq (hl : l.WellFormed unset) (environment : PerField (Option Bytes)) :
    parse l.arguments environment =
      (Reading.ofItems l.items).consultAll environment >>= fun z => .ok z.request := by
  have hline : Reading.start.takeAll l.arguments = .ok (Reading.ofItems l.items) :=
    Reading.takeAll_start.mpr ⟨l, rfl, hl.once, hl.spelled, hl.admissible, rfl⟩
  unfold parse
  rw [hline]
  rfl

theorem WellFormed.of_tolerates (hl : l.WellFormed unset)
    (h : ∀ f, l.Tolerates environment f) : l.WellFormed environment :=
  ⟨hl.once, hl.spelled, hl.admissible, h⟩

theorem WellFormed.parse_refused (hl : l.WellFormed unset) {before after : List Field} {f : Field}
    (horder : Field.inOrder = before ++ f :: after)
    (hbefore : ∀ g ∈ before, l.Tolerates environment g) (hf : ¬ l.Tolerates environment f) :
    parse l.arguments environment = .error (.error f.refusal) := by
  rw [hl.parse_eq, Reading.consultAll_refused horder]
  · rfl
  · intro g hg
    exact tolerates_iff.mpr (hbefore g hg)
  · exact mt tolerates_iff.mp hf

theorem WellFormed.parse_congr (hl : l.WellFormed unset)
    (h : ∀ f, .field f ∉ l.subjects → environment.get f = environment'.get f) :
    parse l.arguments environment = parse l.arguments environment' := by
  rw [hl.parse_eq, hl.parse_eq, Reading.consultAll_congr]
  intro f hf
  exact h f (get_ofItems_eq_none_iff.mp hf)

theorem AsksFor.valueOf_eq (h : l.AsksFor environment r) (f : Field) :
    r.valueOf f = l.valueOf environment f := by
  cases f with
  | root => exact h.root
  | extension => exact h.extension
  | marker => exact h.marker

theorem valueOf_eq (l : Line) (environment : PerField (Option Bytes)) (f : Field) :
    l.valueOf environment f = (l.fallback? environment f).getD (l.valueOf unset f) := by
  unfold valueOf fallback?
  rw [get_unset]
  cases hv : l.value? f with
  | none => simp [value?_eq_none_iff.mp hv]
  | some value =>
    have hgiven : .field f ∈ l.subjects := by
      by_contra hfresh
      rw [value?_eq_none_iff.mpr hfresh] at hv
      cases hv
    simp [hgiven]

/-- `r'` is `r` with the values of some variables in it. -/
structure Completes (l : Line) (environment : PerField (Option Bytes)) (r r' : Request) :
    Prop where
  verbose : r'.verbose = r.verbose
  dryRun : r'.dryRun = r.dryRun
  json : r'.json = r.json
  value : ∀ f, r'.valueOf f = (l.fallback? environment f).getD (r.valueOf f)

theorem AsksFor.completes (h : l.AsksFor unset r) (h' : l.AsksFor environment r') :
    l.Completes environment r r' := by
  constructor
  · exact Bool.eq_iff_iff.mpr (h'.verbose.trans h.verbose.symm)
  · exact Bool.eq_iff_iff.mpr (h'.dryRun.trans h.dryRun.symm)
  · exact Bool.eq_iff_iff.mpr (h'.json.trans h.json.symm)
  · intro f
    rw [h'.valueOf_eq, l.valueOf_eq, h.valueOf_eq]

end Line

/-- Where a line stops without variables, it stops in the same way with any. Where it is read, the
variables of options that it gives count for nothing. Of the others the first one that cannot be the
value of its option is the fault, and if there is none, the options have these values and all else
is as without variables. -/
theorem parse_in_environment (arguments : List Bytes) :
    (∀ stop, parse arguments unset = .error stop →
      ∀ environment, parse arguments environment = .error stop) ∧
    ∀ r, parse arguments unset = .ok r →
      (∃ l : Line, l.arguments = arguments ∧ l.WellFormed unset) ∧
      ∀ l : Line, l.arguments = arguments → l.WellFormed unset →
        (∀ environment environment',
          (∀ f, .field f ∉ l.subjects → environment.get f = environment'.get f) →
            parse arguments environment = parse arguments environment') ∧
        (∀ environment before f after, Field.inOrder = before ++ f :: after →
          (∀ g ∈ before, l.Tolerates environment g) → ¬ l.Tolerates environment f →
            parse arguments environment = .error (.error f.refusal)) ∧
        ∀ environment, (∀ f, l.Tolerates environment f) →
          ∃ r', parse arguments environment = .ok r' ∧ l.Completes environment r r' := by
  refine ⟨fun stop h environment => parse_eq_error_of_unset h environment, ?_⟩
  intro r hr
  obtain ⟨l, harguments, hl, -⟩ := parse_eq_ok_iff.mp hr
  refine ⟨⟨l, harguments, hl⟩, ?_⟩
  rintro l rfl hl
  refine ⟨fun _ _ h => hl.parse_congr h, fun _ _ _ _ => hl.parse_refused, ?_⟩
  intro environment h
  have hl' : l.WellFormed environment := hl.of_tolerates h
  have hasks' := hl'.asksFor_iff.mpr rfl
  have hparse' := parse_eq_ok_iff.mpr ⟨l, rfl, hl', hasks'⟩
  have hasks := hl.asksFor_iff.mpr rfl
  have hparse := parse_eq_ok_iff.mpr ⟨l, rfl, hl, hasks⟩
  obtain rfl := Except.ok.inj (hparse.symm.trans hr)
  exact ⟨_, hparse', hasks.completes hasks'⟩

/-- The variable of an option that is given may be anything, and what is said of a missing value is
not hidden by an empty root. -/
theorem parse_beside_bad_variables :
    let l : Line := ⟨[.joined .extension (Utf8.ofString "jsx"), .switch .dryRun], false⟩
    let r : Request := ⟨false, Path.ofString "src", "jsx", "dark:", true, false⟩
    let environment : PerField (Option Bytes) := ⟨some (Utf8.ofString "-x"), some [0xFF], none⟩
    let environment' : PerField (Option Bytes) := ⟨some [hyphen], some [], some [0xFF]⟩
    let stop : Stop := .error (.missingValue .extension)
    l.arguments = ["--ext=jsx", "--dry-run"].map Utf8.ofString ∧ l.WellFormed unset ∧
      parse l.arguments unset = .ok r ∧ (∀ f, l.Tolerates environment f) ∧
      (∃ r', parse l.arguments environment = .ok r' ∧ l.Completes environment r r' ∧
        r'.valueOf .root = Utf8.ofString "-x") ∧
      (∀ g ∈ [Field.root, .extension], l.Tolerates environment' g) ∧
      ¬ l.Tolerates environment' .marker ∧
      parse l.arguments environment' = .error (.error .notText) ∧
      parse [Utf8.ofString "--ext"] unset = .error stop ∧
      parse [Utf8.ofString "--ext"] ⟨some [], none, none⟩ = .error stop := by
  intro l r environment environment' stop
  have hl : l.WellFormed unset := by
    constructor
    · decide +kernel
    · simp [l, Item.WellSpelled]
    · simp only [l, List.forall_mem_cons, Item.Admissible]
      exact ⟨⟨"jsx".toList, rfl⟩, trivial, by simp⟩
    · intro f _ value hvalue
      rw [get_unset] at hvalue
      cases hvalue
  have hr : parse l.arguments unset = .ok r := by decide +kernel
  have hgiven : .field .extension ∈ l.subjects := List.mem_cons_self
  have htolerates : ∀ f, l.Tolerates environment f := by
    intro f hf value hvalue
    cases f with
    | root => exact Option.some.inj hvalue ▸ (by decide : Utf8.ofString "-x" ≠ [])
    | extension => exact absurd hgiven hf
    | marker => cases hvalue
  have hbefore : ∀ g ∈ [Field.root, .extension], l.Tolerates environment' g := by
    intro g hg hf value hvalue
    rcases List.mem_pair.mp hg with rfl | rfl
    · exact Option.some.inj hvalue ▸ List.cons_ne_nil _ _
    · exact absurd hgiven hf
  have hmarker : ¬ l.Tolerates environment' .marker := by
    intro h
    have hvalue : Field.marker.valueError? [0xFF] = none :=
      Field.valueError?_eq_none_iff.mpr (h (by decide) _ rfl)
    revert hvalue
    decide +kernel
  obtain ⟨-, hread⟩ := parse_in_environment l.arguments
  obtain ⟨-, hrefused, hcompleted⟩ := (hread r hr).2 l rfl hl
  obtain ⟨r', hr', hcompletes⟩ := hcompleted environment htolerates
  have hstop : parse [Utf8.ofString "--ext"] unset = .error stop := by decide +kernel
  refine ⟨by decide +kernel, hl, hr, htolerates, ⟨r', hr', hcompletes, hcompletes.value .root⟩,
    hbefore, hmarker, ?_, hstop, ?_⟩
  · exact hrefused environment' [.root, .extension] .marker [] rfl hbefore hmarker
  · exact (parse_in_environment [Utf8.ofString "--ext"]).1 stop hstop _

end MarkerSweep.CommandLine
