import MarkerSweep.Proofs.CommandLine.Reading
import Mathlib.Data.List.Nodup

/-!
# The grammar of command lines

`parse_grammar`: the command lines that ask for a run are the sequences of items, in any order, in
which nothing is given twice and every value is one that its option can have. `Reading.ofItems` is
the state in which items leave the reading of a line.
-/

namespace MarkerSweep.CommandLine

/-- A command line as its items, with two hyphens at its end if it is `closed`. -/
structure Line where
  items : List Item
  closed : Bool

namespace Line

def arguments (l : Line) : List Bytes :=
  l.items.flatMap Item.arguments ++ if l.closed then [[hyphen, hyphen]] else []

/-- What the line gives, as often as it is given. -/
def subjects (l : Line) : List Declared :=
  l.items.map Item.subject

def value? (l : Line) (f : Field) : Option Bytes :=
  l.items.findSome? (Item.value? f)

/-- The value of an option: that of the line, or else of the environment, or else the standard. -/
def valueOf (l : Line) (environment : PerField (Option Bytes)) (f : Field) : Bytes :=
  ((l.value? f).or (environment.get f)).getD (Utf8.ofString f.standard)

/-- Nothing is given twice, and all values are ones that their options can have. -/
structure WellFormed (l : Line) (environment : PerField (Option Bytes)) : Prop where
  once : l.subjects.Nodup
  spelled : ∀ i ∈ l.items, i.WellSpelled
  admissible : ∀ i ∈ l.items, i.Admissible
  /-- The variables count of options that the line does not give. -/
  fallback : ∀ f, .field f ∉ l.subjects → ∀ value, environment.get f = some value → f.Admits value

/-- What the line asks for, in an environment. -/
structure AsksFor (l : Line) (environment : PerField (Option Bytes)) (r : Request) : Prop where
  verbose : r.verbose = true ↔ .switch .verbose ∈ l.subjects
  dryRun : r.dryRun = true ↔ .switch .dryRun ∈ l.subjects
  json : r.json = true ↔ .switch .json ∈ l.subjects
  root : r.root.bytes = l.valueOf environment .root
  extension : Utf8.ofString r.extension = l.valueOf environment .extension
  marker : Utf8.ofString r.marker = l.valueOf environment .marker

end Line

/-! ### Switches and values, each by its name -/

def Switches.ofFun (g : Switch → Bool) : Switches :=
  ⟨g .verbose, g .dryRun, g .json⟩

@[simp]
theorem Switches.get_ofFun (g : Switch → Bool) (s : Switch) : (ofFun g).get s = g s := by
  cases s <;> rfl

theorem Switches.ext_get {v w : Switches} (h : ∀ s, v.get s = w.get s) : v = w := by
  have hverbose : v.verbose = w.verbose := h .verbose
  have hdry : v.dryRun = w.dryRun := h .dryRun
  have hjson : v.json = w.json := h .json
  obtain ⟨_, _, _⟩ := v
  obtain ⟨_, _, _⟩ := w
  subst hverbose hdry hjson
  rfl

namespace PerField

variable {α : Type}

def ofFun (g : Field → α) : PerField α :=
  ⟨g .root, g .extension, g .marker⟩

@[simp]
theorem get_ofFun (g : Field → α) (f : Field) : (ofFun g).get f = g f := by
  cases f <;> rfl

theorem ext_get {v w : PerField α} (h : ∀ f, v.get f = w.get f) : v = w := by
  have hroot : v.root = w.root := h .root
  have hextension : v.extension = w.extension := h .extension
  have hmarker : v.marker = w.marker := h .marker
  obtain ⟨_, _, _⟩ := v
  obtain ⟨_, _, _⟩ := w
  subst hroot hextension hmarker
  rfl

end PerField

/-! ### The state after items -/

theorem Item.findSome?_eq_none_iff {f : Field} {items : List Item} :
    items.findSome? (value? f) = none ↔ .field f ∉ items.map subject := by
  simp [List.findSome?_eq_none_iff, value?_eq_none_iff]

/-- Where no option is given twice, any item that gives an option decides on its value. -/
theorem Item.findSome?_eq_some_iff {f : Field} {items : List Item} {value : Bytes}
    (once : (items.map subject).Nodup) :
    items.findSome? (value? f) = some value ↔ ∃ i ∈ items, i.value? f = some value := by
  constructor
  · exact List.exists_of_findSome?_eq_some
  · rintro ⟨i, hi, hvalue⟩
    cases hfound : items.findSome? (value? f) with
    | none =>
      rw [List.findSome?_eq_none_iff] at hfound
      rw [hfound i hi] at hvalue
      cases hvalue
    | some value' =>
      obtain ⟨j, hj, hvalue'⟩ := List.exists_of_findSome?_eq_some hfound
      have hsubject : i.subject = j.subject :=
        (subject_of_value? hvalue).trans (subject_of_value? hvalue').symm
      obtain rfl : i = j := List.inj_on_of_nodup_map once hi hj hsubject
      exact hvalue'.symm.trans hvalue

namespace Reading

variable {z : Reading} {items done : List Item} {arguments : List Bytes}

/-- What was read when these items were. -/
def ofItems (items : List Item) : Reading where
  switches := Switches.ofFun fun s => decide (.switch s ∈ items.map Item.subject)
  values := PerField.ofFun fun f => items.findSome? (Item.value? f)
  pending := none

theorem turnOn_ofItems (i : Item) {s : Switch} (hs : i.subject = .switch s) :
    { ofItems items with switches := (ofItems items).switches.turnOn s } =
      ofItems (items ++ [i]) := by
  have hvalue : ∀ f, i.value? f = none := by
    intro f
    rw [Item.value?_eq_none_iff, hs]
    simp
  have hswitches : (ofItems items).switches.turnOn s = (ofItems (items ++ [i])).switches := by
    apply Switches.ext_get
    intro u
    rw [Switches.get_turnOn]
    simp [ofItems, hs, Bool.or_comm]
  have hvalues : (ofItems items).values = (ofItems (items ++ [i])).values := by
    simp [ofItems, List.findSome?_append, hvalue]
  exact congrArg₂ (fun switches values => Reading.mk switches values none) hswitches hvalues

theorem set_ofItems {i : Item} {f : Field} {value : Bytes} (hs : i.subject = .field f)
    (hv : i.value? f = some value) (hfresh : .field f ∉ items.map Item.subject) :
    { ofItems items with values := (ofItems items).values.set f (some value) } =
      ofItems (items ++ [i]) := by
  have hnone := Item.findSome?_eq_none_iff.mpr hfresh
  have hswitches : (ofItems items).switches = (ofItems (items ++ [i])).switches := by
    simp [ofItems, hs]
  have hvalues : (ofItems items).values.set f (some value) = (ofItems (items ++ [i])).values := by
    apply PerField.ext_get
    intro g
    rw [PerField.get_set]
    by_cases hg : g = f
    · subst hg
      simp [ofItems, List.findSome?_append, hnone, hv]
    · have hother : i.value? g = none := by
        rw [Item.value?_eq_none_iff, hs]
        simpa using fun h => hg h.symm
      simp [ofItems, List.findSome?_append, hother, hg]
  exact congrArg₂ (fun switches values => Reading.mk switches values none) hswitches hvalues

/-- An item is taken if nothing before it gave the same, and its value is one that it can have. -/
theorem give_ofItems {i : Item} :
    (ofItems items).give i = .ok z ↔
      i.subject ∉ items.map Item.subject ∧ i.Admissible ∧ z = ofItems (items ++ [i]) := by
  have hname {s : Switch} (hs : i.subject = .switch s) :
      (ofItems items).takeName (.switch s) = .ok z ↔
        i.subject ∉ items.map Item.subject ∧ z = ofItems (items ++ [i]) := by
    rw [takeName_switch_eq_ok_iff, settle_of_pending_eq_none rfl]
    simp only [Except.ok.injEq, exists_eq_left', turnOn_ofItems i hs, hs]
    simp [ofItems]
  have hstore {f : Field} {value : Bytes} (hs : i.subject = .field f)
      (hv : i.value? f = some value) :
      (ofItems items).store f value = .ok z ↔
        i.subject ∉ items.map Item.subject ∧ f.Admits value ∧ z = ofItems (items ++ [i]) := by
    have hget : (ofItems items).values.get f = none ↔ i.subject ∉ items.map Item.subject := by
      rw [hs, ← Item.findSome?_eq_none_iff]
      simp [ofItems]
    rw [store_eq_ok_iff, hget]
    refine and_congr_right fun hfresh => ?_
    rw [set_ofItems hs hv (hs ▸ hfresh)]
  cases i with
  | letter => simpa [give, Item.Admissible] using hname rfl
  | switch s => simpa [give, Item.Admissible] using hname rfl
  | joined f value => exact hstore rfl (by simp [Item.value?])
  | apart f value => exact hstore rfl (by simp [Item.value?])

/-- A line is read to its end, after items that gave nothing twice, if it consists of more items that
go with them. -/
theorem takeAll_ofItems (honce : (done.map Item.subject).Nodup) :
    (ofItems done).takeAll arguments = .ok z ↔
      ∃ l : Line, l.arguments = arguments ∧ ((done ++ l.items).map Item.subject).Nodup ∧
        (∀ i ∈ l.items, i.WellSpelled) ∧ (∀ i ∈ l.items, i.Admissible) ∧
        z = ofItems (done ++ l.items) := by
  constructor
  · -- Each item leaves fewer arguments.
    induction hl : arguments.length using Nat.strongRecOn generalizing arguments done with
    | _ length ih =>
      intro hz
      rcases exists_item rfl hz with ⟨hend, rfl⟩ | ⟨i, rest, rfl, hspelled⟩
      · rcases hend with rfl | rfl
        · exact ⟨⟨[], false⟩, rfl, by simpa using honce, by simp, by simp, by simp⟩
        · exact ⟨⟨[], true⟩, rfl, by simpa using honce, by simp, by simp, by simp⟩
      · obtain ⟨r, hgive, hz⟩ := (takeAll_item rfl hspelled).mp hz
        obtain ⟨hfresh, hadmissible, rfl⟩ := give_ofItems.mp hgive
        have honce' : ((done ++ [i]).map Item.subject).Nodup := by
          rw [List.map_append, List.map_singleton, ← List.concat_eq_append]
          exact honce.concat hfresh
        have hlt : rest.length < length := by
          have hpos := List.length_pos_iff.mpr i.arguments_ne_nil
          rw [← hl, List.length_append]
          omega
        obtain ⟨l, rfl, honce, hspelled', hadmissible', rfl⟩ := ih _ hlt honce' rfl hz
        rw [List.append_assoc] at honce ⊢
        refine ⟨⟨i :: l.items, l.closed⟩, ?_, honce, ?_, ?_, rfl⟩
        · simp [Line.arguments]
        · exact List.forall_mem_cons.mpr ⟨hspelled, hspelled'⟩
        · exact List.forall_mem_cons.mpr ⟨hadmissible, hadmissible'⟩
  · rintro ⟨⟨items, closed⟩, rfl, honce, hspelled, hadmissible, rfl⟩
    induction items generalizing done with
    | nil =>
      rw [List.append_nil]
      cases closed <;> rfl
    | cons i rest ih =>
      obtain ⟨hi, hspelled⟩ := List.forall_mem_cons.mp hspelled
      obtain ⟨hvalue, hadmissible⟩ := List.forall_mem_cons.mp hadmissible
      rw [List.append_cons] at honce ⊢
      have honce' : ((done ++ [i]).map Item.subject).Nodup := by
        rw [List.map_append] at honce
        exact (List.nodup_append.mp honce).1
      have hfresh : i.subject ∉ done.map Item.subject := by
        rw [List.map_append, List.map_singleton] at honce'
        intro hmem
        exact (List.nodup_append.mp honce').2.2 _ hmem _ List.mem_cons_self rfl
      have hline : Line.arguments ⟨i :: rest, closed⟩ =
          i.arguments ++ Line.arguments ⟨rest, closed⟩ := by simp [Line.arguments]
      rw [hline]
      exact (takeAll_item rfl hi).mpr
        ⟨_, give_ofItems.mpr ⟨hfresh, hvalue, rfl⟩, ih honce' honce hspelled hadmissible⟩

theorem takeAll_start :
    start.takeAll arguments = .ok z ↔
      ∃ l : Line, l.arguments = arguments ∧ l.subjects.Nodup ∧ (∀ i ∈ l.items, i.WellSpelled) ∧
        (∀ i ∈ l.items, i.Admissible) ∧ z = ofItems l.items :=
  @takeAll_ofItems z [] arguments List.nodup_nil

/-! ### The environment -/

variable {environment : PerField (Option Bytes)} {r : Reading} {f : Field}

theorem consult_eq_ok_iff :
    r.consult environment f = .ok z ↔
      (r.values.get f = none → ∀ value, environment.get f = some value → f.Admits value) ∧
        z = { r with values := r.values.set f ((r.values.get f).or (environment.get f)) } := by
  have hsame : r.values.set f (r.values.get f) = r.values := by
    apply PerField.ext_get
    intro g
    rw [PerField.get_set]
    split
    · next h => rw [h]
    · rfl
  rw [consult]
  cases hv : r.values.get f with
  | some value =>
    rw [hv] at hsame
    simp [hsame, eq_comm]
  | none =>
    cases he : environment.get f with
    | none =>
      rw [hv] at hsame
      simp [hsame, eq_comm]
    | some value =>
      rw [store_eq_ok_iff]
      simp [hv]

/-- The environment is looked at for what the line does not give, and has to be right there. -/
theorem consultAll_eq_ok_iff :
    r.consultAll environment = .ok z ↔
      (∀ f, r.values.get f = none → ∀ value, environment.get f = some value → f.Admits value) ∧
        z = { r with values := PerField.ofFun fun f => (r.values.get f).or (environment.get f) } := by
  have hall : ∀ p : Field → Prop, (∀ f, p f) ↔ p .root ∧ p .extension ∧ p .marker := by
    intro p
    constructor
    · intro h
      exact ⟨h _, h _, h _⟩
    · rintro ⟨hroot, hextension, hmarker⟩ f
      cases f <;> assumption
  have hvalues : (((r.values.set .root ((r.values.get .root).or (environment.get .root))).set
      .extension ((r.values.get .extension).or (environment.get .extension))).set .marker
      ((r.values.get .marker).or (environment.get .marker))) =
        PerField.ofFun fun f => (r.values.get f).or (environment.get f) := rfl
  unfold consultAll
  simp only [bind_eq_ok_iff, consult_eq_ok_iff, and_assoc, exists_and_left, exists_eq_left]
  simp only [PerField.get_set, reduceCtorEq, if_false]
  rw [hvalues, hall, and_assoc, and_assoc]

end Reading

/-! ### Whole command lines -/

variable {environment : PerField (Option Bytes)}

namespace Line

variable {l l' : Line}

theorem value?_eq_none_iff {f : Field} : l.value? f = none ↔ .field f ∉ l.subjects :=
  Item.findSome?_eq_none_iff

theorem WellFormed.admits (hl : l.WellFormed environment) (f : Field) :
    f.Admits (l.valueOf environment f) := by
  unfold valueOf
  cases hv : l.value? f with
  | some value =>
    obtain ⟨i, hi, hvalue⟩ := List.exists_of_findSome?_eq_some hv
    exact Item.admits_of_value? (hl.admissible i hi) hvalue
  | none =>
    have hfresh := value?_eq_none_iff.mp hv
    cases he : environment.get f with
    | some value => exact hl.fallback f hfresh value he
    | none =>
      cases f with
      | root => show Utf8.ofString Field.root.standard ≠ []; decide
      | extension => exact ⟨_, rfl⟩
      | marker => exact ⟨_, rfl⟩

/-- What was read when the line was, and the environment behind it. -/
def reading (l : Line) (environment : PerField (Option Bytes)) : Reading :=
  { Reading.ofItems l.items with
    values := PerField.ofFun fun f => (l.value? f).or (environment.get f) }

theorem reading_valueOf (l : Line) (environment : PerField (Option Bytes)) (f : Field) :
    (l.reading environment).valueOf f = l.valueOf environment f := by
  simp [Reading.valueOf, reading, valueOf]

/-- A text is the only one with its bytes. -/
theorem ofString_display {f : Field} {bytes : Bytes} (hf : f ≠ .root) (h : f.Admits bytes) :
    Utf8.ofString (Utf8.display bytes) = bytes := by
  obtain ⟨text, rfl⟩ : ∃ text, bytes = Utf8.encode text := by
    cases f with
    | root => exact absurd rfl hf
    | extension => exact h
    | marker => exact h
  rw [Utf8.display, Utf8.lossy_encode, Utf8.ofString, String.toList_ofList]

theorem display_ofString (s : String) : Utf8.display (Utf8.ofString s) = s := by
  rw [Utf8.display, Utf8.ofString, Utf8.lossy_encode, String.ofList_toList]

theorem WellFormed.asksFor_iff (hl : l.WellFormed environment) {r : Request} :
    l.AsksFor environment r ↔ (l.reading environment).request = r := by
  have hswitch (s : Switch) (b : Bool) : (b = true ↔ .switch s ∈ l.subjects) ↔
      (l.reading environment).switches.get s = b := by
    have hget : (l.reading environment).switches.get s = decide (.switch s ∈ l.subjects) :=
      Switches.get_ofFun _ s
    rw [hget]
    cases b <;> simp
  have htext (f : Field) (hf : f ≠ .root) (text : String) :
      Utf8.ofString text = l.valueOf environment f ↔
        Utf8.display ((l.reading environment).valueOf f) = text := by
    rw [reading_valueOf]
    constructor
    · intro h
      rw [← h, display_ofString]
    · rintro rfl
      exact ofString_display hf (hl.admits f)
  constructor
  · intro h
    obtain ⟨verbose, ⟨root⟩, extension, marker, dryRun, json⟩ := r
    simp only [Reading.request, Request.mk.injEq, Path.mk.injEq]
    refine ⟨(hswitch _ _).mp h.verbose, ?_, (htext _ (by simp) _).mp h.extension,
      (htext _ (by simp) _).mp h.marker, (hswitch _ _).mp h.dryRun, (hswitch _ _).mp h.json⟩
    rw [reading_valueOf]
    exact h.root.symm
  · rintro rfl
    refine ⟨(hswitch _ _).mpr rfl, (hswitch _ _).mpr rfl, (hswitch _ _).mpr rfl, ?_,
      (htext _ (by simp) _).mpr rfl, (htext _ (by simp) _).mpr rfl⟩
    exact l.reading_valueOf environment .root

/-! #### Lines with the same items -/

theorem WellFormed.perm (hl : l.WellFormed environment) (hp : l'.items.Perm l.items) :
    l'.WellFormed environment := by
  have hsubjects : l'.subjects.Perm l.subjects := hp.map Item.subject
  constructor
  · exact hsubjects.nodup_iff.mpr hl.once
  · intro i hi
    exact hl.spelled i (hp.subset hi)
  · intro i hi
    exact hl.admissible i (hp.subset hi)
  · intro f hf
    exact hl.fallback f fun h => hf (hsubjects.mem_iff.mpr h)

theorem value?_perm (hl : l.subjects.Nodup) (hp : l'.items.Perm l.items) (f : Field) :
    l'.value? f = l.value? f := by
  have hl' : l'.subjects.Nodup := (hp.map Item.subject).nodup_iff.mpr hl
  apply Option.ext
  intro value
  unfold value?
  rw [Item.findSome?_eq_some_iff hl', Item.findSome?_eq_some_iff hl]
  simp only [hp.mem_iff]

theorem AsksFor.perm {r : Request} (h : l.AsksFor environment r) (hl : l.subjects.Nodup)
    (hp : l'.items.Perm l.items) : l'.AsksFor environment r := by
  have hsubjects : l'.subjects.Perm l.subjects := hp.map Item.subject
  have hvalue (f : Field) : l'.valueOf environment f = l.valueOf environment f := by
    unfold valueOf
    rw [value?_perm hl hp]
  constructor
  · rw [hsubjects.mem_iff]
    exact h.verbose
  · rw [hsubjects.mem_iff]
    exact h.dryRun
  · rw [hsubjects.mem_iff]
    exact h.json
  · rw [hvalue]
    exact h.root
  · rw [hvalue]
    exact h.extension
  · rw [hvalue]
    exact h.marker

end Line

/-- A command line is read if it is in the grammar, and as what the grammar says. -/
theorem parse_eq_ok_iff {arguments : List Bytes} {r : Request} :
    parse arguments environment = .ok r ↔
      ∃ l : Line, l.arguments = arguments ∧ l.WellFormed environment ∧
        l.AsksFor environment r := by
  have hvalue (l : Line) (f : Field) : (Reading.ofItems l.items).values.get f = l.value? f :=
    PerField.get_ofFun _ f
  unfold parse
  simp only [Reading.bind_eq_ok_iff, Reading.takeAll_start, Reading.consultAll_eq_ok_iff]
  constructor
  · rintro ⟨_, ⟨l, harguments, honce, hspelled, hadmissible, rfl⟩, _, ⟨hfallback, rfl⟩, hr⟩
    simp only [hvalue, Line.value?_eq_none_iff] at hfallback hr
    have hl : l.WellFormed environment := ⟨honce, hspelled, hadmissible, hfallback⟩
    exact ⟨l, harguments, hl, hl.asksFor_iff.mpr (Except.ok.inj hr)⟩
  · rintro ⟨l, harguments, hl, hasks⟩
    refine ⟨_, ⟨l, harguments, hl.once, hl.spelled, hl.admissible, rfl⟩,
      l.reading environment, ⟨?_, ?_⟩, ?_⟩
    · simp only [hvalue, Line.value?_eq_none_iff]
      exact hl.fallback
    · simp only [hvalue]
      rfl
    · exact congrArg Except.ok (hl.asksFor_iff.mp hasks)

/-- The settings of a request are what it says, with the full stops at the start of the extension
left out. -/
structure Request.Carries (r : Request) (settings : Settings) : Prop where
  root : settings.root = r.root
  marker : settings.marker = r.marker
  dryRun : settings.dryRun = r.dryRun
  extension : ∃ dots, r.extension.toList = List.replicate dots '.' ++ settings.extension.toList
  undotted : settings.extension.toList.head? ≠ some '.'

theorem Request.carries_settings (r : Request) : r.Carries r.settings := by
  have hextension : r.settings.extension.toList = r.extension.toList.dropWhile (· == '.') :=
    String.toList_ofList
  refine ⟨rfl, rfl, rfl, ?_, ?_⟩
  · have hdots : r.extension.toList.takeWhile (· == '.') =
        List.replicate (r.extension.toList.takeWhile (· == '.')).length '.' := by
      apply List.eq_replicate_of_mem
      intro c hc
      simpa using List.all_eq_true.mp List.all_takeWhile c hc
    refine ⟨(r.extension.toList.takeWhile (· == '.')).length, ?_⟩
    rw [hextension, ← hdots, List.takeWhile_append_dropWhile]
  · intro hhead
    rw [hextension] at hhead
    have hnot := List.head?_dropWhile_not (· == '.') r.extension.toList
    rw [hhead] at hnot
    cases hnot

/-- The command lines that ask for a run are those of the grammar. What they ask for does not depend
on the order of their items, and goes into the settings of the run. -/
theorem parse_grammar (environment : PerField (Option Bytes)) :
    (∀ arguments r, parse arguments environment = .ok r ↔
      ∃ l : Line, l.arguments = arguments ∧ l.WellFormed environment ∧
        l.AsksFor environment r) ∧
      (∀ l l' : Line, l.WellFormed environment → l'.items.Perm l.items →
        parse l'.arguments environment = parse l.arguments environment) ∧
      ∀ r : Request, r.Carries r.settings := by
  refine ⟨fun _ _ => parse_eq_ok_iff, ?_, Request.carries_settings⟩
  intro l l' hl hp
  have hasks := hl.asksFor_iff.mpr rfl
  rw [parse_eq_ok_iff.mpr ⟨l, rfl, hl, hasks⟩,
    parse_eq_ok_iff.mpr ⟨l', rfl, hl.perm hp, hasks.perm hl.once hp⟩]

/-- A root may be one hyphen, and what a variable says may look like an option. -/
theorem parse_closed_line :
    let environment : PerField (Option Bytes) :=
      ⟨some [], none, some (Utf8.ofString "--json")⟩
    let items : List Item :=
      [.joined .extension (Utf8.ofString "..jsx"), .letter, .apart .root [hyphen]]
    let l : Line := ⟨items, true⟩
    let l' : Line := ⟨items.reverse, false⟩
    let r : Request := ⟨true, ⟨[hyphen]⟩, "..jsx", "--json", false, false⟩
    l.arguments = ["--ext=..jsx", "-v", "--root", "-", "--"].map Utf8.ofString ∧
      l.WellFormed environment ∧ l.AsksFor environment r ∧
      parse l.arguments environment = .ok r ∧
      l'.arguments = ["--root", "-", "-v", "--ext=..jsx"].map Utf8.ofString ∧
      parse l'.arguments environment = .ok r ∧ r.settings.extension = "jsx" := by
  intro environment items l l' r
  have hl : l.WellFormed environment := by
    constructor
    · decide +kernel
    · exact List.forall_mem_cons.mpr ⟨trivial, by simp [Item.WellSpelled, StandsAlone]⟩
    · refine List.forall_mem_cons.mpr ⟨⟨"..jsx".toList, rfl⟩, ?_⟩
      simp [Item.Admissible, Field.Admits]
    · intro f hf value hvalue
      cases f with
      | root => exact absurd (by decide +kernel) hf
      | extension => exact absurd (by decide +kernel) hf
      | marker => exact ⟨"--json".toList, (Option.some.inj hvalue).symm⟩
  have hasks : l.AsksFor environment r := by
    constructor <;> decide +kernel
  obtain ⟨hgrammar, horder, -⟩ := parse_grammar environment
  have hparse : parse l.arguments environment = .ok r :=
    (hgrammar l.arguments r).mpr ⟨l, rfl, hl, hasks⟩
  refine ⟨by decide +kernel, hl, hasks, hparse, by decide +kernel, ?_, by decide +kernel⟩
  rw [horder l l' hl items.reverse_perm, hparse]

end MarkerSweep.CommandLine
