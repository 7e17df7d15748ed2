import MarkerSweep.Proofs.Walk.Listing
import Mathlib.Data.Set.Finite.List

/-!
# How far a walk goes

A walk goes through a symbolic link only into a directory that is not open, and what it opened on
its way stays open. So the links to directories on a route lead to different ones, of which none is
where the walk started: `Reaches.linkCount_lt` bounds their number. Between two links a route only
goes down, which bounds its length too, and `walk_extent` follows: a walk has finitely many routes,
whatever links there are.
-/

namespace MarkerSweep

namespace Tree

variable {t : Tree} {here start inner : OpenDirectory} {outer above : List OpenDirectory}
  {name : Name} {names : List Name} {l : Location} {node : Node}

/-! ### Directories and names of a tree -/

/-- The number of directories of a tree, the root among them. -/
def directoryCount (t : Tree) : Nat :=
  t.directories.toFinset.card

theorem mem_directories_iff : l ∈ t.directories ↔ t.get? l = some .directory := by
  refine ⟨fun hl => ?_, mem_directories_of_get?⟩
  cases l with
  | nil => rfl
  | cons name dir =>
    simp only [directories, List.mem_cons, List.mem_map, List.mem_filter, decide_eq_true_eq] at hl
    obtain ⟨e, ⟨he, hn⟩, hp⟩ := hl.resolve_left (List.cons_ne_nil _ _)
    exact get?_eq_some_iff.mpr ⟨e, he, hp, hn⟩

theorem length_le_depth_of_get? (h : t.get? l = some node) : l.length ≤ t.depth := by
  cases l with
  | nil => exact Nat.zero_le _
  | cons name dir =>
    obtain ⟨e, he, hp, -⟩ := get?_eq_some_iff.mp h
    rw [← hp]
    exact length_le_depth he

/-- The names that entries of a tree have. -/
def entryNames (t : Tree) : List Name :=
  t.entries.filterMap fun e => e.place.head?

theorem mem_entryNames_of_get? {dir : Location} (hn : t.get? (name :: dir) = some node) :
    name ∈ t.entryNames := by
  obtain ⟨e, he, hp, -⟩ := get?_eq_some_iff.mp hn
  exact List.mem_filterMap.mpr ⟨e, he, by rw [hp]; rfl⟩

/-! ### What a route goes through -/

theorem Enters.get?_inner (he : t.Enters here outer name inner) :
    t.get? inner.place = some .directory :=
  get?_of_lookIn he.lookIn_eq

theorem Route.get?_opened (hr : t.Route start [] names here outer)
    (hstart : t.get? start.place = some .directory) :
    ∀ d ∈ here :: outer, t.get? d.place = some .directory := by
  induction hr with
  | start =>
    intro d hd
    rwa [List.mem_singleton.mp hd]
  | enter _ he ih =>
    intro d hd
    rcases List.mem_cons.mp hd with rfl | hd
    · exact he.get?_inner
    · exact ih d hd

theorem Route.mem_entryNames (hr : t.Route start above names here outer) :
    ∀ name ∈ names, name ∈ t.entryNames := by
  induction hr with
  | start => simp
  | enter _ he ih =>
    intro name hname
    rcases List.mem_append.mp hname with hname | hname
    · exact ih name hname
    · obtain ⟨node, hn⟩ := exists_get?_of_enters he
      rw [List.mem_singleton.mp hname]
      exact mem_entryNames_of_get? hn

/-- What a walk cannot go past is an entry of a directory that it came to by a route. -/
theorem exists_route_of_error (hr : t.Route start above names here outer) {e : WalkError}
    (hv : .error e ∈ t.walk here outer) :
    ∃ (names : List Name) (here : OpenDirectory) (outer : List OpenDirectory) (name : Name),
      t.Route start above names here outer ∧ e.path = here.path.join name.bytes := by
  induction here, outer using t.enters_induction generalizing names with
  | step here outer ih =>
    rw [walk_eq, List.mem_flatMap] at hv
    obtain ⟨⟨name, node⟩, hchild, hv⟩ := hv
    rcases visits_cases outer (mem_children_iff_get?.mp hchild) with
      ⟨inner, he, heq⟩ | ⟨-, heq⟩ | ⟨errors, heq, hpaths⟩
    · rw [heq] at hv
      exact ih name inner he (hr.enter he) hv
    · rw [heq] at hv
      simp at hv
    · rw [heq] at hv
      obtain ⟨e', he', heq'⟩ := List.mem_map.mp hv
      obtain rfl := Visit.error.inj heq'
      exact ⟨names, here, outer, name, hr, hpaths _ he'⟩

end Tree

namespace Host

variable {h : Host} {t : Tree} {here start inner : OpenDirectory} {outer : List OpenDirectory}
  {name last : Name} {names : List Name} {root p : Path}

/-! ### Counting links -/

/-- Whether a path ends in a symbolic link and leads to a directory. -/
def isDirectoryLink (h : Host) (t : Tree) (p : Path) : Bool :=
  match h.look t false p with
  | .ok (_, .link _) => h.isDirectory t p
  | _ => false

/-- How many of the names below a root are symbolic links to directories. -/
def linkCount (h : Host) (t : Tree) (root : Path) (names : List Name) : Nat :=
  (List.range names.length).countP fun i => h.isDirectoryLink t (root.below (names.take (i + 1)))

theorem linkCount_concat (h : Host) (t : Tree) (root : Path) (names : List Name) (name : Name) :
    h.linkCount t root (names ++ [name]) = h.linkCount t root names +
      if h.isDirectoryLink t (root.below (names ++ [name])) then 1 else 0 := by
  have hlength : (names ++ [name]).length = names.length + 1 := by simp
  have hfront : ∀ i ∈ List.range names.length,
      (names ++ [name]).take (i + 1) = names.take (i + 1) := by
    intro i hi
    exact List.take_append_of_le_length (List.mem_range.mp hi)
  have hall : (names ++ [name]).take (names.length + 1) = names ++ [name] := by
    rw [← hlength, List.take_length]
  unfold linkCount
  rw [hlength, List.range_succ, List.countP_append, List.countP_singleton, hall]
  congr 1
  apply List.countP_congr
  intro i hi
  rw [hfront i hi]

theorem isDirectoryLink_iff :
    h.isDirectoryLink t p = true ↔
      (∃ l target, h.look t false p = .ok (l, .link target)) ∧ h.isDirectory t p = true := by
  unfold isDirectoryLink
  split
  · next l target hl => exact ⟨fun hd => ⟨⟨l, target, hl⟩, hd⟩, And.right⟩
  · next hno =>
    refine ⟨fun hf => absurd hf Bool.false_ne_true, ?_⟩
    rintro ⟨⟨l, target, hl⟩, -⟩
    exact absurd hl (hno l target)

/-- What a walk enters as a link is one in the directory that it comes from. -/
theorem Reaches.isDirectoryLink_iff_of_enters (hr : h.Reaches t here)
    (he : t.Enters here outer name inner) :
    h.isDirectoryLink t inner.path = true ↔
      ∃ target, t.get? (name :: here.place) = some (.link target) := by
  have hinner := hr.enters he
  have hs := spellingError?_of_resolve hinner
  have hdir : h.isDirectory t inner.path = true := isDirectory_iff.mpr ⟨_, hinner.look_eq⟩
  rw [isDirectoryLink_iff, and_iff_left hdir]
  rw [he.path_eq] at hs ⊢
  constructor
  · rintro ⟨l, target, hl⟩
    exact ⟨target, ((hr.look_link_iff hs).mp hl).2⟩
  · rintro ⟨target, hl⟩
    exact ⟨_, target, (hr.look_link_iff hs).mpr ⟨rfl, hl⟩⟩

/-- What a walk visits as a file is no directory. -/
theorem Reaches.isDirectory_eq_false_of_shows (hr : h.Reaches t here) (hs : t.Shows here last) :
    h.isDirectory t (here.path.join last.bytes) = false := by
  rw [Bool.eq_false_iff]
  intro hdir
  obtain ⟨l, hl⟩ := isDirectory_iff.mp hdir
  obtain ⟨spare, hres⟩ := look_eq_ok_iff.mp hl
  have hlook := hr.lookIn_iff.mpr hres
  rcases hs.file with ⟨f, hf⟩ | ⟨target, place, node, spare', -, hlook', hne⟩
  · obtain ⟨-, hn, -⟩ := (Tree.lookIn_of_ne_link (by simp [hf])).mp hlook
    rw [hf] at hn
    cases hn
  · cases hlook.symm.trans hlook'
    exact hne rfl

/-! ### Routes through links -/

/-- Where a walk is, it came through links into different directories, and it is still in all of
them and in the one that it started in. -/
theorem Reaches.exists_opened (hr : h.Reaches t start)
    (hroute : t.Route start [] names here outer) :
    ∃ opened : List Location, opened.Nodup ∧
      (∀ l ∈ opened, ∃ d ∈ here :: outer, d.place = l) ∧
      opened.length = h.linkCount t start.path names + 1 := by
  have hne := bytes_ne_nil_of_resolve hr
  induction hroute with
  | start => exact ⟨[start.place], List.nodup_singleton _, by simp, rfl⟩
  | @enter names here inner outer name hroute he ih =>
    obtain ⟨opened, hnodup, hopen, hlength⟩ := ih
    have hlink := (hr.route hroute).isDirectoryLink_iff_of_enters he
    rw [linkCount_concat, ← (hroute.enter he).path_eq hne]
    have hstill : ∀ l ∈ opened, ∃ d ∈ inner :: here :: outer, d.place = l := by
      intro l hm
      obtain ⟨d, hd, hplace⟩ := hopen l hm
      exact ⟨d, List.mem_cons_of_mem _ hd, hplace⟩
    -- Only a link is known to open a directory anew: a real one may be open through a link above.
    by_cases hl : h.isDirectoryLink t inner.path = true
    · obtain ⟨target, htarget⟩ := hlink.mp hl
      have hfresh : inner.place ∉ opened := by
        intro hm
        obtain ⟨d, hd, hplace⟩ := hopen _ hm
        exact he.fresh target htarget d hd hplace
      have hinner : ∃ d ∈ inner :: here :: outer, d.place = inner.place :=
        ⟨inner, List.mem_cons_self, rfl⟩
      refine ⟨inner.place :: opened, List.nodup_cons.mpr ⟨hfresh, hnodup⟩,
        List.forall_mem_cons.mpr ⟨hinner, hstill⟩, ?_⟩
      rw [List.length_cons, hlength, if_pos hl]
    · exact ⟨opened, hnodup, hstill, by rw [hlength, if_neg hl]⟩

theorem Reaches.get?_place (hr : h.Reaches t here) : t.get? here.place = some .directory :=
  get?_of_look hr.look_eq

theorem Reaches.linkCount_lt (hr : h.Reaches t start)
    (hroute : t.Route start [] names here outer) :
    h.linkCount t start.path names < t.directoryCount := by
  obtain ⟨opened, hnodup, hopen, hlength⟩ := hr.exists_opened hroute
  have hsub : opened.toFinset ⊆ t.directories.toFinset := by
    intro l hm
    obtain ⟨d, hd, rfl⟩ := hopen l (List.mem_toFinset.mp hm)
    have hdir := hroute.get?_opened hr.get?_place d hd
    exact List.mem_toFinset.mpr (Tree.mem_directories_iff.mpr hdir)
  have hcard := Finset.card_le_card hsub
  rw [List.toFinset_card_of_nodup hnodup, hlength] at hcard
  exact hcard

/-- Since the last link, a walk came down by one name at a time, and before it at most all the way
down after each link. -/
theorem Reaches.length_le (hr : h.Reaches t start)
    (hroute : t.Route start [] names here outer) :
    names.length ≤ h.linkCount t start.path names * (t.depth + 1) + here.place.length := by
  have hne := bytes_ne_nil_of_resolve hr
  induction hroute with
  | start => exact Nat.zero_le _
  | @enter names here inner outer name hroute he ih =>
    have hhere := hr.route hroute
    have hlink := hhere.isDirectoryLink_iff_of_enters he
    rw [List.length_append, List.length_singleton, linkCount_concat,
      ← (hroute.enter he).path_eq hne]
    by_cases hl : h.isDirectoryLink t inner.path = true
    · -- The link may lead up again, so what was gone down so far is counted with it.
      have hdepth := Tree.length_le_depth_of_get? hhere.get?_place
      rw [if_pos hl, Nat.succ_mul]
      omega
    · have hno := not_exists.mp (mt hlink.mpr hl)
      obtain ⟨-, -, hplace, -⟩ := (Tree.lookIn_of_ne_link hno).mp he.lookIn_eq
      rw [if_neg hl, add_zero, ← hplace, List.length_cons]
      omega

theorem Reaches.length_lt (hr : h.Reaches t start)
    (hroute : t.Route start [] names here outer) :
    names.length < t.directoryCount * (t.depth + 1) := by
  have hlength := hr.length_le hroute
  have hdepth := Tree.length_le_depth_of_get? (hr.route hroute).get?_place
  calc names.length
    _ < (h.linkCount t start.path names + 1) * (t.depth + 1) := by
      rw [Nat.succ_mul]
      omega
    _ ≤ t.directoryCount * (t.depth + 1) := Nat.mul_le_mul_right _ (hr.linkCount_lt hroute)

/-- A walk comes to directories by finitely many lists of names. -/
theorem Reaches.finite_routes (hr : h.Reaches t start) :
    {names | ∃ here outer, t.Route start [] names here outer}.Finite := by
  have hbounded := List.finite_length_lt {name // name ∈ t.entryNames}
    (t.directoryCount * (t.depth + 1))
  apply (hbounded.image (List.map Subtype.val)).subset
  rintro names ⟨here, outer, hroute⟩
  refine ⟨names.attach.map fun n => ⟨n.1, hroute.mem_entryNames n.1 n.2⟩, ?_, ?_⟩
  · simpa using hr.length_lt hroute
  · rw [List.map_map]
    exact List.attach_map_subtype_val names

/-- Whatever symbolic links there are, a walk ends: it comes to directories by finitely many lists
of names, and what it visits lies below its root behind fewer links to directories than there are
directories. A link that it refuses lies in a directory that it came to. -/
theorem walk_extent (henter : h.enter? t root = some start) :
    {names | ∃ here outer, t.Route start [] names here outer}.Finite ∧
      (∀ names here outer, t.Route start [] names here outer →
        here.path = root.below names ∧ h.linkCount t root names ≤ t.directoryCount - 1) ∧
      (∀ p last, .file p last ∈ t.walk start [] →
        ∃ dirs, p = root.below (dirs ++ [last]) ∧
          h.linkCount t root (dirs ++ [last]) ≤ t.directoryCount - 1) ∧
      ∀ e, .error e ∈ t.walk start [] →
        ∃ dirs last, e.path = root.below (dirs ++ [last]) ∧
          h.linkCount t root dirs ≤ t.directoryCount - 1 := by
  obtain ⟨rfl, hr⟩ := enter?_eq_some_iff.mp henter
  have hne := bytes_ne_nil_of_resolve hr
  have hlinks {names : List Name} {here : OpenDirectory} {outer : List OpenDirectory}
      (hroute : t.Route start [] names here outer) :
      h.linkCount t start.path names ≤ t.directoryCount - 1 :=
    Nat.le_sub_one_of_lt (hr.linkCount_lt hroute)
  refine ⟨hr.finite_routes, fun names here outer hroute => ⟨hroute.path_eq hne, hlinks hroute⟩,
    ?_, ?_⟩
  · intro p last hv
    obtain ⟨dirs, here, outer, hroute, hs, rfl⟩ := Tree.mem_walk_iff_route.mp hv
    refine ⟨dirs, hroute.join_eq hne last, ?_⟩
    have hfile := (hr.route hroute).isDirectory_eq_false_of_shows hs
    rw [linkCount_concat, ← hroute.join_eq hne last, if_neg]
    · exact hlinks hroute
    · intro hl
      exact Bool.false_ne_true (hfile.symm.trans (isDirectoryLink_iff.mp hl).2)
  · intro e hv
    obtain ⟨dirs, here, outer, last, hroute, hpath⟩ := Tree.exists_route_of_error .start hv
    exact ⟨dirs, last, hpath.trans (hroute.join_eq hne last), hlinks hroute⟩

/-- A walk through two links that lead around in a circle, as many as there can be on a route. -/
theorem walk_extent_of_mutual_links :
    let h : Host := ⟨[], 7, 0o022⟩
    let a : Name := ⟨Utf8.ofString "a", by decide⟩
    let b : Name := ⟨Utf8.ofString "b", by decide⟩
    let x : Name := ⟨Utf8.ofString "x", by decide⟩
    let y : Name := ⟨Utf8.ofString "y", by decide⟩
    let f : Name := ⟨Utf8.ofString "f.tsx", by decide⟩
    let t := ((((Tree.empty.put [] a .directory).put [] b .directory).put [a] x
      (.link (Path.ofString "../b"))).put [b] y (.link (Path.ofString ".."))).put [b] f
      (.file ⟨0, 0o644, []⟩)
    let root := Path.ofString "a"
    let start : OpenDirectory := ⟨root, [a], Tree.maxLinks⟩
    h.enter? t root = some start ∧ t.directoryCount = 3 ∧
      (∃ here outer, t.Route start [] [x, y] here outer) ∧ h.linkCount t root [x, y] = 2 ∧
      {names | ∃ here outer, t.Route start [] names here outer}.Finite ∧
      (∀ names here outer, t.Route start [] names here outer →
        here.path = root.below names ∧ h.linkCount t root names ≤ 2) ∧
      (∀ p last, .file p last ∈ t.walk start [] →
        ∃ dirs, p = root.below (dirs ++ [last]) ∧ h.linkCount t root (dirs ++ [last]) ≤ 2) ∧
      ∀ e, .error e ∈ t.walk start [] →
        ∃ dirs last, e.path = root.below (dirs ++ [last]) ∧ h.linkCount t root dirs ≤ 2 := by
  intro h a b x y f t root start
  have henter : h.enter? t root = some start := rfl
  have hcount : t.directoryCount = 3 := by decide +kernel
  let through : OpenDirectory := ⟨root.below [x], [b], 39⟩
  let around : OpenDirectory := ⟨root.below [x, y], [], 38⟩
  have hx : t.Enters start [] x through := by
    refine ⟨by decide, rfl, rfl, fun _ _ => ?_⟩
    rw [List.forall_mem_singleton]
    decide
  have hy : t.Enters through [start] y around := by
    refine ⟨by decide, rfl, rfl, fun _ _ => ?_⟩
    rw [List.forall_mem_cons, List.forall_mem_singleton]
    decide
  have hlinks : h.linkCount t root [x, y] = 2 := by decide +kernel
  refine ⟨henter, hcount, ⟨_, _, .enter (.enter .start hx) hy⟩, hlinks, ?_⟩
  have hwalk := walk_extent henter
  rwa [hcount] at hwalk

end Host

end MarkerSweep
