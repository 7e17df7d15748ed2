import MarkerSweep.Tree.Resolve

/-!
# Walks

`walk` visits everything below a directory. It goes through symbolic links to directories, except
where a link leads to a directory that the walk is in at that moment. Entries whose names start
with a full stop are passed over with everything below them.

From an open directory the walk goes on to its entries, without following their paths from the
start. It ends because each link it goes through opens a directory that was not open, and each
real directory lies deeper in the tree than the one it is in.
-/

namespace MarkerSweep

/-- A directory that a walk is in. -/
structure OpenDirectory where
  /-- The path by which the walk came there. -/
  path : Path
  place : Location
  /-- Through how many more links the path may lead. -/
  spare : Nat

inductive WalkError where
  | unreadable (path : Path) (cause : SystemError)
  /-- A link leads to a directory that the walk is in, which it entered as `ancestor`. -/
  | loop (path ancestor : Path)
  deriving DecidableEq, Repr

def WalkError.path : WalkError → Path
  | .unreadable path _ => path
  | .loop path _ => path

def WalkError.message : WalkError → String
  | .unreadable path cause => "IO error for operation on " ++ path.display ++ ": " ++ cause.message
  | .loop path ancestor =>
    "File system loop found: " ++ path.display ++ " points to an ancestor " ++ ancestor.display

inductive Visit where
  /-- A regular file, or a link to one, with the name it has there. -/
  | file (path : Path) (name : Name)
  | error (error : WalkError)

namespace Tree

/-- How many directories are not open. -/
def closed (t : Tree) (opened : List OpenDirectory) : Nat :=
  t.directories.countP fun l => l ∉ opened.map OpenDirectory.place

theorem mem_directories_of_get? {t : Tree} {l : Location} (h : t.get? l = some .directory) :
    l ∈ t.directories := by
  cases l with
  | nil => simp [directories]
  | cons n d =>
    simp only [get?] at h
    simp only [directories, List.mem_cons, List.mem_map, List.mem_filter, decide_eq_true_eq]
    right
    generalize t.entries = es at h
    induction es with
    | nil => cases h
    | cons e rest ih =>
      rw [lookup_cons_ite] at h
      split at h
      · next hk => exact ⟨e, ⟨List.mem_cons_self, Option.some.inj h⟩, hk.symm⟩
      · obtain ⟨e', ⟨hm, hn⟩, hp⟩ := ih h
        exact ⟨e', ⟨List.mem_cons_of_mem _ hm, hn⟩, hp⟩

theorem closed_cons_le (t : Tree) (d : OpenDirectory) (opened : List OpenDirectory) :
    t.closed (d :: opened) ≤ t.closed opened := by
  unfold closed
  apply List.countP_mono_left
  simp

theorem closed_cons_lt {t : Tree} {d : OpenDirectory} {opened : List OpenDirectory}
    (hd : t.get? d.place = some .directory) (hn : d.place ∉ opened.map OpenDirectory.place) :
    t.closed (d :: opened) < t.closed opened := by
  have hmem := mem_directories_of_get? hd
  unfold closed
  generalize t.directories = ds at hmem
  obtain ⟨before, after, rfl⟩ := List.append_of_mem hmem
  simp only [List.countP_append, List.countP_cons]
  have h1 (ls : List Location) : ls.countP (fun l => l ∉ (d :: opened).map OpenDirectory.place) ≤
      ls.countP (fun l => l ∉ opened.map OpenDirectory.place) := by
    apply List.countP_mono_left
    simp
  have h2 := h1 before
  have h3 := h1 after
  simp only [List.map_cons, List.mem_cons, true_or, not_true, decide_false, hn, not_false_iff,
    decide_true] at h2 h3 ⊢
  simp only [Bool.false_eq_true, if_false, if_true]
  omega

theorem length_le_depth {t : Tree} {e : Placed} (h : e ∈ t.entries) :
    e.place.length ≤ t.depth := by
  unfold depth
  rw [← e.depth_eq]
  have key : ∀ (es : List Placed) (n : Nat),
      n ≤ es.foldl (fun n e => max n e.depth) n ∧
        ∀ e ∈ es, e.depth ≤ es.foldl (fun n e => max n e.depth) n := by
    intro es
    induction es with
    | nil => intro n; simp
    | cons a rest ih =>
      intro n
      have ⟨h1, h2⟩ := ih (max n a.depth)
      refine ⟨by simp only [List.foldl_cons]; omega, ?_⟩
      intro e he
      rcases List.mem_cons.mp he with rfl | he
      · simp only [List.foldl_cons]; omega
      · simp only [List.foldl_cons]; exact h2 e he
  exact (key t.entries 0).2 e h

/-- The children of a directory are the entries whose locations are a name below it. -/
theorem mem_children_iff {t : Tree} {dir : Location} {child : Name × Node} :
    child ∈ t.children dir ↔ ∃ e ∈ t.entries, e.place = child.1 :: dir ∧ e.node = child.2 := by
  obtain ⟨name, node⟩ := child
  simp only [children, List.mem_filterMap]
  refine exists_congr fun e => and_congr_right fun _ => ?_
  split
  · next n d hp =>
    rw [← List.length_cons (a := n), Option.ite_none_right_eq_some, Placed.isAt_iff, hp]
    simp only [Option.some.injEq, Prod.mk.injEq, List.cons.injEq]
    grind
  · next hp => simp [hp]

theorem length_lt_depth_of_mem_children {t : Tree} {dir : Location} {child : Name × Node}
    (h : child ∈ t.children dir) : dir.length < t.depth := by
  obtain ⟨e, he, hp, _⟩ := mem_children_iff.mp h
  have := length_le_depth he
  rw [hp] at this
  exact this

/-- Goes on from an open directory to an entry of it, which `path` leads to. -/
def lookIn (t : Tree) (here : OpenDirectory) (path : Path) (name : Name) :
    Except SystemError (Location × Node × Nat) :=
  match path.spellingError? with
  | some e => .error e
  | none =>
    match t.follow true here.spare here.place [.down name] with
    | .ok (.present place node spare) => .ok (place, node, spare)
    | .ok (.absent _ _) => .error .noEntry
    | .error e => .error e

theorem get?_of_lookIn {t : Tree} {here : OpenDirectory} {path : Path} {name : Name}
    {place : Location} {node : Node} {spare : Nat}
    (hl : lookIn t here path name = .ok (place, node, spare)) : t.get? place = some node := by
  unfold lookIn at hl
  split at hl
  · cases hl
  · split at hl
    · next hf =>
      cases hl
      exact get?_of_follow hf
    · cases hl
    · cases hl

/-- What a walk comes upon in the innermost of the directories that it is in. -/
def walk (t : Tree) (here : OpenDirectory) (outer : List OpenDirectory) : List Visit :=
  (t.children here.place).attach.flatMap fun ⟨(name, node), _hmem⟩ =>
    let path := here.path.join name.bytes
    let hidden := Path.isHidden name.bytes
    match node with
    | .file _ => if hidden then [] else [.file path name]
    | .directory =>
      if hidden then []
      else
        match path.spellingError? with
        | some e => [.error (.unreadable path e)]
        | none => walk t ⟨path, name :: here.place, here.spare⟩ (here :: outer)
    | .link _ =>
      match _hl : lookIn t here path name with
      | .error e => [.error (.unreadable path e)]
      | .ok (place, .directory, spare) =>
        match _hf : (here :: outer).find? fun d => d.place = place with
        | some ancestor => [.error (.loop path ancestor.path)]
        | none => if hidden then [] else walk t ⟨path, place, spare⟩ (here :: outer)
      | .ok _ => if hidden then [] else [.file path name]
termination_by (t.closed (here :: outer), t.depth - here.place.length)
decreasing_by
  · have hd := length_lt_depth_of_mem_children _hmem
    have hc := t.closed_cons_le ⟨path, name :: here.place, here.spare⟩ (here :: outer)
    rcases Nat.lt_or_eq_of_le hc with hlt | heq
    · exact Prod.Lex.left _ _ hlt
    · rw [heq]
      apply Prod.Lex.right
      simp only [List.length_cons]
      omega
  · apply Prod.Lex.left
    apply closed_cons_lt (get?_of_lookIn _hl)
    intro hm
    obtain ⟨d, hd, hp⟩ := List.mem_map.mp hm
    have := List.find?_eq_none.mp _hf d hd
    simp [hp] at this

end Tree

/-- The directory that a path leads to, before anything in it was looked at. -/
def Host.enter? (h : Host) (t : Tree) (p : Path) : Option OpenDirectory :=
  match h.resolve t true p with
  | .ok (.present place .directory spare) => some ⟨p, place, spare⟩
  | _ => none

end MarkerSweep
