import MarkerSweep.Proofs.Tree.WithFile

/-!
# Outlines of trees

What is left of a tree without the data of its files. `SameOutline.finds_eq` says that paths find
the same places in two trees of one outline.
-/

namespace MarkerSweep

/-- A file without its data, of which the permission bits are left, or anything else as it is. -/
def Node.outline : Node → Node
  | .file f => .file ⟨0, f.mode, []⟩
  | .directory => .directory
  | .link target => .link target

def Found.outline : Found → Found
  | .present place node spare => .present place node.outline spare
  | .absent dir name => .absent dir name

theorem Node.eq_or_files_of_outline {node node' : Node} (hout : node'.outline = node.outline) :
    node' = node ∨ ∃ f f', node = .file f ∧ node' = .file f' ∧ f'.mode = f.mode := by
  cases node with
  | file f =>
    cases node' with
    | file f' =>
      have hmode : f'.mode = f.mode := by simpa [outline] using hout
      exact .inr ⟨f, f', rfl, rfl, hmode⟩
    | directory => cases hout
    | link q => cases hout
  | directory => cases node' <;> first | exact .inl rfl | cases hout
  | link q =>
    cases node' with
    | file f' => cases hout
    | directory => cases hout
    | link q' => exact .inl hout

/-- Whether a path leads to what is at `place`. -/
def Host.finds (h : Host) (t : Tree) (p : Path) (place : Location) : Bool :=
  match h.look t true p with
  | .ok (l, _) => l == place
  | .error _ => false

theorem Host.finds_iff {h : Host} {t : Tree} {p : Path} {place : Location} :
    h.finds t p place = true ↔ ∃ node, h.look t true p = .ok (place, node) := by
  unfold finds
  cases hl : h.look t true p with
  | error e => simp
  | ok at_ =>
    obtain ⟨l, node⟩ := at_
    simp only [beq_iff_eq, Except.ok.injEq, Prod.mk.injEq]
    constructor
    · rintro rfl
      exact ⟨node, rfl, rfl⟩
    · rintro ⟨-, rfl, -⟩
      rfl

theorem Host.finds_eq_true {h : Host} {t : Tree} {p : Path} {place l : Location} {node : Node}
    (hl : h.look t true p = .ok (l, node)) : h.finds t p place = true ↔ place = l := by
  rw [finds_iff]
  constructor
  · rintro ⟨node', hl'⟩
    rw [hl] at hl'
    cases hl'
    rfl
  · rintro rfl
    exact ⟨node, hl⟩

namespace Tree

/-- The same directories and links, and files with the same permission bits, at the same places. -/
def SameOutline (t t' : Tree) : Prop :=
  ∀ l, (t'.get? l).map Node.outline = (t.get? l).map Node.outline

variable {t t' t'' : Tree} {place : Location} {f old : File} {h : Host} {p : Path} {node : Node}
  {followLast : Bool}

theorem SameOutline.refl (t : Tree) : t.SameOutline t :=
  fun _ => rfl

theorem SameOutline.symm (ho : t.SameOutline t') : t'.SameOutline t :=
  fun l => (ho l).symm

theorem SameOutline.trans (ho : t.SameOutline t') (ho' : t'.SameOutline t'') :
    t.SameOutline t'' :=
  fun l => (ho' l).trans (ho l)

theorem SameOutline.exists_node (ho : t.SameOutline t') {node : Node}
    (hn : t.get? place = some node) :
    ∃ node', t'.get? place = some node' ∧ node'.outline = node.outline := by
  have hl := ho place
  rw [hn] at hl
  exact Option.map_eq_some_iff.mp hl

theorem SameOutline.get?_ne_none (ho : t.SameOutline t') (hn : t.get? place ≠ none) :
    t'.get? place ≠ none := by
  obtain ⟨node, hnode⟩ := Option.ne_none_iff_exists'.mp hn
  obtain ⟨node', hnode', -⟩ := ho.exists_node hnode
  simp [hnode']

theorem SameOutline.carries (ho : t.SameOutline t') : t.Carries t' := by
  intro l node hn hnode
  obtain ⟨node', hn', hout⟩ := ho.exists_node hn
  rw [hn']
  cases node with
  | file f => exact absurd rfl (hnode f)
  | directory => cases node' <;> simp_all [Node.outline]
  | link q => cases node' <;> simp_all [Node.outline]

theorem SameOutline.get?_eq_directory_iff (ho : t.SameOutline t') :
    t'.get? place = some .directory ↔ t.get? place = some .directory :=
  ⟨fun hd => ho.symm.carries _ _ hd (by simp), fun hd => ho.carries _ _ hd (by simp)⟩

theorem SameOutline.get?_eq_none (ho : t.SameOutline t') (hn : t.get? place = none) :
    t'.get? place = none := by
  have hl := ho place
  rw [hn] at hl
  exact Option.map_eq_none_iff.mp hl

theorem SameOutline.exists_file (ho : t.SameOutline t') (hf : t.get? place = some (.file f)) :
    ∃ f', t'.get? place = some (.file f') ∧ (Node.file f').outline = (Node.file f).outline := by
  obtain ⟨node', hn', hout⟩ := ho.exists_node hf
  cases node' with
  | file f' => exact ⟨f', hn', hout⟩
  | directory => cases hout
  | link q => cases hout

theorem SameOutline.inhabits (ho : t.SameOutline t') (hi : h.Inhabits t) : h.Inhabits t' := by
  refine ⟨fun name dir hn => ?_, ho.carries _ _ hi.cwd (by simp)⟩
  have hdir := hi.rooted name dir (ho.symm.get?_ne_none hn)
  exact ho.carries _ _ hdir (by simp)

theorem takeSteps_outline {spare : Nat} (ho : t.SameOutline t')
    {onLink onLink' : Location → List Step → Except SystemError Found}
    (hlink : ∀ here steps,
      (onLink' here steps).map Found.outline = (onLink here steps).map Found.outline)
    (here : Location) (steps : List Step) :
    (takeSteps t' followLast spare onLink' here steps).map Found.outline =
      (takeSteps t followLast spare onLink here steps).map Found.outline := by
  induction steps generalizing here with
  | nil =>
    simp only [takeSteps]
    cases hn : t.get? here with
    | none => rw [ho.get?_eq_none hn]
    | some node =>
      obtain ⟨node', hn', hout⟩ := ho.exists_node hn
      rw [hn']
      exact congrArg (fun n => Except.ok (Found.present here n spare)) hout
  | cons step rest ih =>
    cases step with
    | stay => exact ih here
    | up => exact ih here.tail
    | tooLong => rfl
    | down name =>
      simp only [takeSteps]
      cases hn : t.get? (name :: here) with
      | none => rw [ho.get?_eq_none hn]
      | some node =>
        cases node with
        | directory =>
          rw [ho.carries _ _ hn (by simp)]
          exact ih (name :: here)
        | link target =>
          rw [ho.carries _ _ hn (by simp)]
          by_cases hlast : rest = [] ∧ followLast = false
          · simp only [if_pos hlast]
          · simp only [if_neg hlast]
            exact hlink _ _
        | file f =>
          obtain ⟨f', hf', hout⟩ := ho.exists_file hn
          rw [hf']
          by_cases hrest : rest = []
          · simp only [if_pos hrest]
            exact congrArg (fun n => Except.ok (Found.present (name :: here) n spare)) hout
          · simp only [if_neg hrest]

/-- Steps lead to the same place in trees of the same outline, or they fail in the same way. -/
theorem SameOutline.follow (ho : t.SameOutline t') (followLast : Bool) (links : Nat)
    (here : Location) (steps : List Step) :
    (t'.follow followLast links here steps).map Found.outline =
      (t.follow followLast links here steps).map Found.outline := by
  induction links generalizing here steps with
  | zero => exact takeSteps_outline ho (fun _ _ => rfl) here steps
  | succ links ih => exact takeSteps_outline ho ih here steps

/-- Steps lead to the same, or to a file that has the same place and permission bits in both
trees. -/
theorem SameOutline.follow_eq_or_files (ho : t.SameOutline t') (followLast : Bool) (links : Nat)
    (here : Location) (steps : List Step) :
    t'.follow followLast links here steps = t.follow followLast links here steps ∨
      ∃ place f f' spare,
        t.follow followLast links here steps = .ok (.present place (.file f) spare) ∧
        t'.follow followLast links here steps = .ok (.present place (.file f') spare) ∧
        f'.mode = f.mode := by
  have hout := ho.follow followLast links here steps
  cases hf : t.follow followLast links here steps with
  | error e =>
    cases hf' : t'.follow followLast links here steps with
    | error e' => rw [hf, hf'] at hout; cases hout; exact .inl rfl
    | ok found' => rw [hf, hf'] at hout; cases hout
  | ok found =>
    cases hf' : t'.follow followLast links here steps with
    | error e' => rw [hf, hf'] at hout; cases hout
    | ok found' =>
      rw [hf, hf'] at hout
      have hfound : found'.outline = found.outline := Except.ok.inj hout
      cases found with
      | absent dir name =>
        cases found' with
        | absent dir' name' => exact .inl (congrArg Except.ok hfound)
        | present place' node' spare' => cases hfound
      | present place node spare =>
        cases found' with
        | absent dir' name' => cases hfound
        | present place' node' spare' =>
          obtain ⟨rfl, hnode, rfl⟩ := Found.present.inj hfound
          rcases Node.eq_or_files_of_outline hnode with rfl | ⟨f, f', rfl, rfl, hmode⟩
          · exact .inl rfl
          · exact .inr ⟨_, f, f', _, rfl, rfl, hmode⟩

theorem SameOutline.resolve_eq_or_files (ho : t.SameOutline t') (followLast : Bool) (p : Path) :
    h.resolve t' followLast p = h.resolve t followLast p ∨
      ∃ place f f' spare, h.resolve t followLast p = .ok (.present place (.file f) spare) ∧
        h.resolve t' followLast p = .ok (.present place (.file f') spare) ∧ f'.mode = f.mode := by
  unfold Host.resolve
  cases p.spellingError? with
  | some e => exact .inl rfl
  | none => exact ho.follow_eq_or_files followLast _ _ _

theorem SameOutline.look_eq_or_files (ho : t.SameOutline t') (followLast : Bool) (p : Path) :
    h.look t' followLast p = h.look t followLast p ∨
      ∃ place f f', h.look t followLast p = .ok (place, .file f) ∧
        h.look t' followLast p = .ok (place, .file f') ∧ f'.mode = f.mode := by
  unfold Host.look
  rcases ho.resolve_eq_or_files followLast p with hr | ⟨place, f, f', spare, hr, hr', hmode⟩
  · rw [hr]
    exact .inl rfl
  · rw [hr, hr']
    exact .inr ⟨place, f, f', rfl, rfl, hmode⟩

/-- A path leads to what is now at the place that it led to before. -/
theorem SameOutline.look (ho : t.SameOutline t')
    (hl : h.look t followLast p = .ok (place, node)) {node' : Node}
    (hn : t'.get? place = some node') : h.look t' followLast p = .ok (place, node') := by
  rcases ho.look_eq_or_files (h := h) followLast p with heq | ⟨l, f, f', hf, hf', -⟩
  · rw [hl] at heq
    obtain rfl := Option.some.inj ((Host.get?_of_look heq).symm.trans hn)
    exact heq
  · cases hl.symm.trans hf
    obtain rfl := Option.some.inj ((Host.get?_of_look hf').symm.trans hn)
    exact hf'

theorem SameOutline.look_error (ho : t.SameOutline t') {e : SystemError}
    (hl : h.look t followLast p = .error e) : h.look t' followLast p = .error e := by
  rcases ho.look_eq_or_files (h := h) followLast p with heq | ⟨l, f, f', hf, -, -⟩
  · exact heq.trans hl
  · cases hl.symm.trans hf

theorem SameOutline.finds (ho : t.SameOutline t') (hf : h.finds t p place = true) :
    h.finds t' p place = true := by
  obtain ⟨node, hl⟩ := Host.finds_iff.mp hf
  obtain ⟨node', hn', -⟩ := ho.exists_node (Host.get?_of_look hl)
  exact Host.finds_iff.mpr ⟨node', ho.look hl hn'⟩

/-- Paths find the same places in trees of the same outline. -/
theorem SameOutline.finds_eq (ho : t.SameOutline t') (p : Path) (place : Location) :
    h.finds t' p place = h.finds t p place := by
  rw [Bool.eq_iff_iff]
  exact ⟨ho.symm.finds, ho.finds⟩

theorem WithFile.sameOutline (hw : t.WithFile place f t') (hold : t.get? place = some (.file old))
    (hmode : f.mode = old.mode) : t.SameOutline t' := by
  intro l
  by_cases hl : l = place
  · subst hl
    rw [hw.get?_place, hold]
    simp [Node.outline, hmode]
  · rw [hw.get?_other hl]

end Tree

end MarkerSweep
