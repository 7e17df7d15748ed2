import MarkerSweep.Proofs.Tree.Onward
import MarkerSweep.Proofs.Walk.Visits
import Mathlib.Tactic.Tauto

/-!
# Routes of a walk

`Route` says by which names a walk comes from a directory into others. `mem_walk_iff_route` shows
that a walk visits the files at the ends of its routes and no others, and
`exists_below_of_mem_visits` that what it visits at different entries has different paths.
-/

namespace MarkerSweep

namespace Tree

variable {t : Tree} {here start inner : OpenDirectory} {outer above : List OpenDirectory}
  {dir place : Location} {name last : Name} {node : Node} {path : Path} {spare : Nat}
  {names : List Name}

/-- A walk that is in `here` goes on into `inner` by the entry called `name`. -/
structure Enters (t : Tree) (here : OpenDirectory) (outer : List OpenDirectory) (name : Name)
    (inner : OpenDirectory) : Prop where
  shown : Path.isHidden name.bytes = false
  path_eq : inner.path = here.path.join name.bytes
  lookIn_eq : t.lookIn here inner.path name = .ok (inner.place, .directory, inner.spare)
  /-- A link opens none of the directories that the walk is in. -/
  fresh : ∀ target, t.get? (name :: here.place) = some (.link target) →
    ∀ d ∈ here :: outer, d.place ≠ inner.place

/-- A walk that is in `here` visits the entry called `name` as a file. -/
structure Shows (t : Tree) (here : OpenDirectory) (name : Name) : Prop where
  shown : Path.isHidden name.bytes = false
  file : (∃ f, t.get? (name :: here.place) = some (.file f)) ∨
    ∃ target place node spare, t.get? (name :: here.place) = some (.link target) ∧
      t.lookIn here (here.path.join name.bytes) name = .ok (place, node, spare) ∧
      node ≠ .directory

/-! ### The entries of a directory -/

theorem get?_eq_some_iff :
    t.get? (name :: dir) = some node ↔
      ∃ e ∈ t.entries, e.place = name :: dir ∧ e.node = node := by
  have hnodup := t.nodup
  simp only [get?]
  generalize t.entries = entries at hnodup ⊢
  induction entries with
  | nil => simp [lookup]
  | cons e rest ih =>
    rw [List.map_cons, List.nodup_cons] at hnodup
    rw [lookup_cons_ite]
    by_cases h : name :: dir = e.place
    · rw [if_pos h]
      constructor
      · intro hn
        exact ⟨e, List.mem_cons_self, h.symm, Option.some.inj hn⟩
      · rintro ⟨e', he', hp, rfl⟩
        rcases List.mem_cons.mp he' with rfl | he'
        · rfl
        · have hmem : e'.place ∈ rest.map Placed.place := List.mem_map_of_mem he'
          rw [hp, h] at hmem
          exact absurd hmem hnodup.1
    · rw [if_neg h]
      refine (ih hnodup.2).trans ?_
      constructor
      · rintro ⟨e', he', hp⟩
        exact ⟨e', List.mem_cons_of_mem _ he', hp⟩
      · rintro ⟨e', he', hp, hn⟩
        rcases List.mem_cons.mp he' with rfl | he'
        · exact absurd hp.symm h
        · exact ⟨e', he', hp, hn⟩

theorem mem_children_iff_get? :
    (name, node) ∈ t.children dir ↔ t.get? (name :: dir) = some node := by
  rw [mem_children_iff, get?_eq_some_iff]

theorem pairwise_children (t : Tree) (dir : Location) :
    (t.children dir).Pairwise fun a b => a.1 ≠ b.1 := by
  -- An entry alone in a tree is there as it is among others.
  have hplace {e : Placed} {child : Name × Node}
      (hmem : child ∈ children ⟨[e], by simp⟩ dir) : e.place = child.1 :: dir := by
    obtain ⟨e', he', hp, -⟩ := mem_children_iff.mp hmem
    rwa [List.mem_singleton.mp he'] at hp
  unfold children
  apply List.Pairwise.filterMap _ _ (List.pairwise_map.mp t.nodup)
  intro e e' hne child hchild child' hchild' heq
  apply hne
  rw [hplace (List.mem_filterMap.mpr ⟨e, List.mem_singleton_self e, hchild⟩),
    hplace (List.mem_filterMap.mpr ⟨e', List.mem_singleton_self e', hchild'⟩), heq]

/-! ### One step of a walk -/

theorem lookIn_eq_ok_iff :
    t.lookIn here path name = .ok (place, node, spare) ↔
      path.spellingError? = none ∧
        t.follow true here.spare here.place [.down name] = .ok (.present place node spare) := by
  unfold lookIn
  cases path.spellingError? with
  | some e => simp
  | none =>
    cases t.follow true here.spare here.place [.down name] with
    | error e => simp
    | ok found => cases found <;> simp

theorem lookIn_of_ne_link (hno : ∀ target, t.get? (name :: here.place) ≠ some (.link target)) :
    t.lookIn here path name = .ok (place, node, spare) ↔
      path.spellingError? = none ∧ t.get? (name :: here.place) = some node ∧
        name :: here.place = place ∧ here.spare = spare := by
  rw [lookIn_eq_ok_iff, follow_down (.inr hno)]
  cases t.get? (name :: here.place) with
  | none => simp
  | some found =>
    simp only [Except.ok.injEq, Found.present.injEq, Option.some.injEq]
    tauto

theorem mem_visits_of_enters (he : t.Enters here outer name inner)
    (hn : t.get? (name :: here.place) = some node) {visit : Visit}
    (hv : visit ∈ t.walk inner (here :: outer)) : visit ∈ t.visits here outer (name, node) := by
  obtain ⟨hshown, hpath, hlook, hfresh⟩ := he
  obtain ⟨path, place, spare⟩ := inner
  obtain rfl : path = here.path.join name.bytes := hpath
  unfold visits
  simp only [hshown, Bool.false_eq_true, if_false]
  cases node with
  | link target =>
    have hfind : (here :: outer).find? (fun d => d.place = place) = none := by
      apply List.find?_eq_none.mpr
      intro d hd
      simpa using hfresh target hn d hd
    simpa only [hlook, hfind] using hv
  | file f =>
    obtain ⟨-, hdir, -⟩ := (lookIn_of_ne_link (by simp [hn])).mp hlook
    rw [hn] at hdir
    cases hdir
  | directory =>
    obtain ⟨hspelled, -, rfl, rfl⟩ := (lookIn_of_ne_link (by simp [hn])).mp hlook
    simpa only [hspelled] using hv

theorem mem_visits_of_shows (hs : t.Shows here name)
    (hn : t.get? (name :: here.place) = some node) :
    .file (here.path.join name.bytes) name ∈ t.visits here outer (name, node) := by
  obtain ⟨hshown, hfile⟩ := hs
  unfold visits
  simp only [hshown, Bool.false_eq_true, if_false]
  rcases hfile with ⟨f, hf⟩ | ⟨target, place, end_, spare, hl, hlook, hne⟩
  · obtain rfl := Option.some.inj (hn.symm.trans hf)
    exact List.mem_singleton_self _
  · obtain rfl := Option.some.inj (hn.symm.trans hl)
    cases end_ with
    | directory => exact absurd rfl hne
    | file f => simp only [hlook, List.mem_singleton]
    | link q => simp only [hlook, List.mem_singleton]

/-- At an entry, a walk goes on into a directory, or visits the entry as a file, or comes upon
errors with the path of the entry at most. -/
theorem visits_cases (outer : List OpenDirectory) (hn : t.get? (name :: here.place) = some node) :
    (∃ inner, t.Enters here outer name inner ∧
        t.visits here outer (name, node) = t.walk inner (here :: outer)) ∨
      (t.Shows here name ∧
        t.visits here outer (name, node) = [.file (here.path.join name.bytes) name]) ∨
      ∃ errors : List WalkError, t.visits here outer (name, node) = errors.map Visit.error ∧
        ∀ e ∈ errors, e.path = here.path.join name.bytes := by
  unfold visits
  by_cases hshown : Path.isHidden name.bytes = true
  · -- A hidden entry yields errors at most.
    right
    right
    simp only [hshown, if_true]
    cases node with
    | file f => exact ⟨[], rfl, by simp⟩
    | directory => exact ⟨[], rfl, by simp⟩
    | link target =>
      simp only
      split
      · exact ⟨[_], rfl, by simp [WalkError.path]⟩
      · split
        · exact ⟨[_], rfl, by simp [WalkError.path]⟩
        · exact ⟨[], rfl, by simp⟩
      · exact ⟨[], rfl, by simp⟩
  · rw [Bool.not_eq_true] at hshown
    simp only [hshown, Bool.false_eq_true, if_false]
    cases node with
    | file f => exact .inr (.inl ⟨⟨hshown, .inl ⟨f, hn⟩⟩, rfl⟩)
    | directory =>
      have hno : ∀ target, t.get? (name :: here.place) ≠ some (.link target) := by simp [hn]
      simp only
      split
      · exact .inr (.inr ⟨[_], rfl, by simp [WalkError.path]⟩)
      · next hspelled =>
        refine .inl ⟨_, ⟨hshown, rfl, ?_, fun target hl => absurd hl (hno target)⟩, rfl⟩
        exact (lookIn_of_ne_link hno).mpr ⟨hspelled, hn, rfl, rfl⟩
    | link target =>
      simp only
      split
      · exact .inr (.inr ⟨[_], rfl, by simp [WalkError.path]⟩)
      · next place spare hlook =>
        split
        · exact .inr (.inr ⟨[_], rfl, by simp [WalkError.path]⟩)
        · next hfind =>
          refine .inl ⟨_, ⟨hshown, rfl, hlook, fun _ _ d hd => ?_⟩, rfl⟩
          simpa using List.find?_eq_none.mp hfind d hd
      · next found hne hlook =>
        obtain ⟨place, end_, spare⟩ := found
        refine .inr (.inl ⟨⟨hshown, .inr ⟨target, place, end_, spare, hn, hlook, ?_⟩⟩, rfl⟩)
        rintro rfl
        exact hne place spare rfl

theorem shows_or_enters_of_mem_visits (hn : t.get? (name :: here.place) = some node)
    (hv : .file path last ∈ t.visits here outer (name, node)) :
    (name = last ∧ t.Shows here last ∧ path = here.path.join last.bytes) ∨
      ∃ inner, t.Enters here outer name inner ∧ .file path last ∈ t.walk inner (here :: outer) := by
  rcases visits_cases outer hn with ⟨inner, he, heq⟩ | ⟨hs, heq⟩ | ⟨errors, heq, -⟩
  · exact .inr ⟨inner, he, heq ▸ hv⟩
  · rw [heq, List.mem_singleton] at hv
    obtain ⟨rfl, rfl⟩ := Visit.file.inj hv
    exact .inl ⟨rfl, hs, rfl⟩
  · rw [heq] at hv
    simp at hv

theorem exists_get?_of_enters (he : t.Enters here outer name inner) :
    ∃ node, t.get? (name :: here.place) = some node := by
  apply Option.ne_none_iff_exists'.mp
  intro hnone
  obtain ⟨-, hdir, -⟩ := (lookIn_of_ne_link (by simp [hnone])).mp he.lookIn_eq
  rw [hnone] at hdir
  cases hdir

theorem mem_walk_iff :
    .file path last ∈ t.walk here outer ↔
      (t.Shows here last ∧ path = here.path.join last.bytes) ∨
        ∃ name inner, t.Enters here outer name inner ∧
          .file path last ∈ t.walk inner (here :: outer) := by
  rw [walk_eq, List.mem_flatMap]
  constructor
  · rintro ⟨⟨name, node⟩, hchild, hv⟩
    rcases shows_or_enters_of_mem_visits (mem_children_iff_get?.mp hchild) hv with
      ⟨-, hs, hpath⟩ | ⟨inner, he, hv⟩
    · exact .inl ⟨hs, hpath⟩
    · exact .inr ⟨name, inner, he, hv⟩
  · rintro (⟨hs, rfl⟩ | ⟨name, inner, he, hv⟩)
    · obtain ⟨node, hn⟩ : ∃ node, t.get? (last :: here.place) = some node := by
        rcases hs.file with ⟨f, hf⟩ | ⟨target, _, _, _, hl, -⟩
        · exact ⟨_, hf⟩
        · exact ⟨_, hl⟩
      exact ⟨(last, node), mem_children_iff_get?.mpr hn, mem_visits_of_shows hs hn⟩
    · obtain ⟨node, hn⟩ := exists_get?_of_enters he
      exact ⟨(name, node), mem_children_iff_get?.mpr hn, mem_visits_of_enters he hn hv⟩

/-- What holds in a directory if it holds in all that a walk enters from it holds everywhere: a walk
ends. -/
theorem enters_induction {motive : OpenDirectory → List OpenDirectory → Prop}
    (step : ∀ here outer, (∀ name inner, t.Enters here outer name inner →
      motive inner (here :: outer)) → motive here outer)
    (here : OpenDirectory) (outer : List OpenDirectory) : motive here outer := by
  apply walk.induct t motive
  intro here outer hdir hlink
  apply step
  rintro name ⟨path, place, spare⟩ he
  obtain rfl : path = here.path.join name.bytes := he.path_eq
  by_cases hl : ∃ target, t.get? (name :: here.place) = some (.link target)
  · obtain ⟨target, hl⟩ := hl
    apply hlink name place spare he.lookIn_eq
    apply List.find?_eq_none.mpr
    intro d hd
    simpa using he.fresh target hl d hd
  · rw [not_exists] at hl
    obtain ⟨-, hn, hplace, hspare⟩ := (lookIn_of_ne_link hl).mp he.lookIn_eq
    obtain rfl : name :: here.place = place := hplace
    obtain rfl : here.spare = spare := hspare
    exact hdir name (mem_children_iff_get?.mpr hn)

/-! ### Routes -/

/-- By these names a walk comes from `start`, with `above` open around it, into `here`, with `outer`
around it. -/
inductive Route (t : Tree) (start : OpenDirectory) (above : List OpenDirectory) :
    List Name → OpenDirectory → List OpenDirectory → Prop where
  | start : Route t start above [] start above
  | enter {names : List Name} {here inner : OpenDirectory} {outer : List OpenDirectory}
      {name : Name} (hr : Route t start above names here outer)
      (he : t.Enters here outer name inner) :
      Route t start above (names ++ [name]) inner (here :: outer)

theorem Route.exists_enters (hr : t.Route start above (names ++ [name]) inner outer) :
    ∃ here around, t.Route start above names here around ∧ t.Enters here around name inner := by
  generalize hall : names ++ [name] = all at hr
  cases hr with
  | start => simp at hall
  | @enter names' here _ around name' hr he =>
    obtain ⟨rfl, hname⟩ := List.append_inj' hall rfl
    obtain rfl := List.singleton_inj.mp hname
    exact ⟨here, around, hr, he⟩

theorem Route.walk_subset (hr : t.Route start above names here outer)
    (hv : .file path last ∈ t.walk here outer) : .file path last ∈ t.walk start above := by
  induction hr with
  | start => exact hv
  | enter _ he ih => exact ih (mem_walk_iff.mpr (.inr ⟨_, _, he, hv⟩))

theorem exists_route_of_mem_walk (hr : t.Route start above names here outer)
    (hv : .file path last ∈ t.walk here outer) :
    ∃ names here outer, t.Route start above names here outer ∧ t.Shows here last ∧
      path = here.path.join last.bytes := by
  induction here, outer using t.enters_induction generalizing names with
  | step here outer ih =>
    rcases mem_walk_iff.mp hv with ⟨hs, hpath⟩ | ⟨name, inner, he, hv⟩
    · exact ⟨names, here, outer, hr, hs, hpath⟩
    · exact ih name inner he (hr.enter he) hv

theorem mem_walk_iff_route :
    .file path last ∈ t.walk start above ↔
      ∃ names here outer, t.Route start above names here outer ∧ t.Shows here last ∧
        path = here.path.join last.bytes := by
  constructor
  · exact exists_route_of_mem_walk .start
  · rintro ⟨names, here, outer, hr, hs, hpath⟩
    exact hr.walk_subset (mem_walk_iff.mpr (.inl ⟨hs, hpath⟩))

theorem Route.path_eq (hr : t.Route start above names here outer) (hne : start.path.bytes ≠ []) :
    here.path = start.path.below names := by
  induction hr with
  | start => rfl
  | enter _ he ih => rw [he.path_eq, ih, Path.below_concat hne]

theorem Route.join_eq (hr : t.Route start above names here outer) (hne : start.path.bytes ≠ [])
    (last : Name) : here.path.join last.bytes = start.path.below (names ++ [last]) := by
  rw [hr.path_eq hne, Path.below_concat hne]

/-! ### Every file once -/

theorem exists_below_of_mem_walk (hne : start.path.bytes ≠ [])
    (hv : .file path last ∈ t.walk start above) : ∃ names, path = start.path.below names := by
  obtain ⟨names, here, outer, hr, -, rfl⟩ := mem_walk_iff_route.mp hv
  exact ⟨names ++ [last], hr.join_eq hne last⟩

/-- Whatever a walk visits at an entry has a path that goes through the entry. -/
theorem exists_below_of_mem_visits (hne : here.path.bytes ≠ [])
    (hn : t.get? (name :: here.place) = some node)
    (hv : .file path last ∈ t.visits here outer (name, node)) :
    ∃ names, path = here.path.below (name :: names) := by
  rcases shows_or_enters_of_mem_visits hn hv with ⟨rfl, -, rfl⟩ | ⟨inner, he, hv⟩
  · exact ⟨[], Path.below_cons hne name []⟩
  · have hinner : inner.path.bytes ≠ [] := by
      rw [he.path_eq]
      exact here.path.join_ne_nil name
    obtain ⟨names, rfl⟩ := exists_below_of_mem_walk hinner hv
    rw [he.path_eq]
    exact ⟨names, Path.below_cons hne name names⟩

end Tree

end MarkerSweep
