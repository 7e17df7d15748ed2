import MarkerSweep.Proofs.Tree.Outline
import MarkerSweep.Proofs.Walk.Route
import MarkerSweep.Survey
import Mathlib.Data.List.Induction
import Mathlib.Data.List.Nodup

/-!
# What a survey lists

`survey_files_iff`: the files that a survey lists are, each once, those below its root that names
lead to through directories, where no link opens a directory again that the names came through.
A path that is too long for the system leads nowhere, but is listed all the same if the entry in
its directory is a file and no link: `survey_lists_overlong_path`.
-/

namespace MarkerSweep

/-! ### Extensions -/

theorem Path.extension?_eq_some_iff {name tail : Bytes} (hshown : isHidden name = false) :
    extension? name = some tail ↔ ∃ stem, name = stem ++ dot :: tail ∧ dot ∉ tail := by
  constructor
  · intro h
    simp only [extension?] at h
    split at h
    · next hlong =>
      have hcut := List.takeWhile_append_dropWhile (p := (· ≠ dot)) (l := name.reverse)
      have hno : dot ∉ name.reverse.takeWhile (· ≠ dot) := by
        intro hm
        have hne := List.all_eq_true.mp List.all_takeWhile dot hm
        simp at hne
      have hback := List.head?_dropWhile_not (· ≠ dot) name.reverse
      obtain rfl := Option.some.inj h
      generalize name.reverse.takeWhile (· ≠ dot) = front at hlong hcut hno ⊢
      generalize name.reverse.dropWhile (· ≠ dot) = back at hcut hback
      rw [← List.reverse_inj, List.reverse_reverse] at hcut
      subst hcut
      cases back with
      | nil =>
        rw [List.append_nil] at hlong
        omega
      | cons b back =>
        obtain rfl : b = dot := by simpa using hback
        exact ⟨back.reverse, by simp, by simpa using hno⟩
    · cases h
  · rintro ⟨stem, rfl, hno⟩
    have htake : ((stem ++ dot :: tail).reverse.takeWhile (· ≠ dot)).reverse = tail := by
      have hall : ∀ b ∈ tail.reverse, decide (b ≠ dot) = true := by
        intro b hb
        rw [decide_eq_true_eq]
        rintro rfl
        exact hno (List.mem_reverse.mp hb)
      rw [List.reverse_append, List.reverse_cons, List.append_assoc,
        List.takeWhile_append_of_pos hall]
      simp
    have hstem : stem ≠ [] := by
      rintro rfl
      simp [isHidden] at hshown
    have hpos : 0 < stem.length := List.length_pos_iff.mpr hstem
    unfold extension?
    simp only [htake]
    rw [if_pos]
    simp only [List.length_append, List.length_cons]
    omega

/-! ### What paths lead to below an open directory -/

theorem Path.spellingError?_join {p : Path} (hp : p.spellingError? = none) (name : Name) :
    (p.join name.bytes).spellingError? =
      if limit ≤ (p.join name.bytes).bytes.length then some .nameTooLong else none := by
  have hne := p.join_ne_nil name
  have hzero : 0 ∉ (p.join name.bytes).bytes := by
    have hname := name.zero_not_mem
    have hpath : 0 ∉ p.bytes := by
      intro h
      simp [spellingError?, h] at hp
    have hslash : (0 : UInt8) ≠ slash := by decide
    unfold join
    split <;> simp [hname, hpath, hslash]
  unfold spellingError?
  simp [hzero, hne]

namespace Host

variable {h : Host} {t : Tree} {here start inner : OpenDirectory} {outer : List OpenDirectory}
  {name last : Name} {names dirs : List Name} {place : Location} {node : Node} {spare : Nat}
  {root p : Path} {extension : String}

/-- The path of an open directory leads to it. -/
def Reaches (h : Host) (t : Tree) (d : OpenDirectory) : Prop :=
  h.resolve t true d.path = .ok (.present d.place .directory d.spare)

theorem enter?_eq_some_iff : h.enter? t p = some start ↔ start.path = p ∧ h.Reaches t start := by
  unfold enter? Reaches
  constructor
  · intro he
    split at he
    · next hr =>
      cases he
      exact ⟨rfl, hr⟩
    · cases he
  · rintro ⟨rfl, hr⟩
    rw [hr]

theorem Reaches.look_eq (hr : h.Reaches t here) :
    h.look t true here.path = .ok (here.place, .directory) :=
  look_eq_ok_iff.mpr ⟨here.spare, hr⟩

theorem Reaches.lookIn_iff (hr : h.Reaches t here) :
    t.lookIn here (here.path.join name.bytes) name = .ok (place, node, spare) ↔
      h.resolve t true (here.path.join name.bytes) = .ok (.present place node spare) := by
  rw [Tree.lookIn_eq_ok_iff]
  constructor
  · rintro ⟨hs, hf⟩
    rw [resolve_join hr name hs, hf]
  · intro hres
    have hs := spellingError?_of_resolve hres
    exact ⟨hs, (resolve_join hr name hs).symm.trans hres⟩

theorem Reaches.look_link_iff (hr : h.Reaches t here) {l : Location} {target : Path}
    (hs : (here.path.join name.bytes).spellingError? = none) :
    h.look t false (here.path.join name.bytes) = .ok (l, .link target) ↔
      name :: here.place = l ∧ t.get? (name :: here.place) = some (.link target) := by
  rw [look_eq_ok_iff, resolve_join hr name hs, Tree.follow_down (.inl rfl)]
  cases t.get? (name :: here.place) with
  | none => simp
  | some found => simp

theorem Reaches.enters (hr : h.Reaches t here) (he : t.Enters here outer name inner) :
    h.Reaches t inner := by
  have hlook := he.lookIn_eq
  rw [he.path_eq] at hlook
  unfold Reaches
  rw [he.path_eq]
  exact hr.lookIn_iff.mp hlook

theorem Reaches.route (hr : h.Reaches t start) (hroute : t.Route start [] names here outer) :
    h.Reaches t here := by
  induction hroute with
  | start => exact hr
  | enter _ he ih => exact ih.enters he

theorem Reaches.finds_iff (hr : h.Reaches t here) :
    h.finds t here.path place = true ↔ place = here.place :=
  finds_eq_true hr.look_eq

def LeadsToFile (h : Host) (t : Tree) (p : Path) : Prop :=
  ∃ place f, h.look t true p = .ok (place, .file f)

/-- A walk visits an entry as a file if its path leads to a file, or would if it were shorter and
the entry is no link. -/
theorem Reaches.shows_iff (hr : h.Reaches t here) (hi : h.Inhabits t) :
    t.Shows here last ↔
      Path.isHidden last.bytes = false ∧
        (h.LeadsToFile t (here.path.join last.bytes) ∨
          Path.limit ≤ (here.path.join last.bytes).bytes.length ∧
            ∃ f, t.get? (last :: here.place) = some (.file f)) := by
  constructor
  · rintro ⟨hshown, ⟨f, hf⟩ | ⟨target, place, node, spare, hl, hlook, hne⟩⟩
    · refine ⟨hshown, ?_⟩
      have hs := Path.spellingError?_join (spellingError?_of_resolve hr) last
      split at hs
      · next hlong => exact .inr ⟨hlong, f, hf⟩
      · refine .inl ⟨last :: here.place, f, look_eq_ok_iff.mpr ⟨here.spare, ?_⟩⟩
        rw [resolve_join hr last hs, Tree.follow_down (.inr (by simp [hf])), hf]
    · have hres := hr.lookIn_iff.mp hlook
      refine ⟨hshown, .inl ?_⟩
      cases node with
      | file f => exact ⟨place, f, look_eq_ok_iff.mpr ⟨spare, hres⟩⟩
      | directory => exact absurd rfl hne
      | link q => exact absurd rfl (node?_ne_link hi hres q)
  · rintro ⟨hshown, ⟨place, f, hl⟩ | ⟨-, f, hf⟩⟩
    · obtain ⟨spare, hres⟩ := look_eq_ok_iff.mp hl
      have hlook := hr.lookIn_iff.mpr hres
      refine ⟨hshown, ?_⟩
      by_cases hlink : ∃ target, t.get? (last :: here.place) = some (.link target)
      · obtain ⟨target, hlink⟩ := hlink
        exact .inr ⟨target, place, .file f, spare, hlink, hlook, by simp⟩
      · rw [not_exists] at hlink
        obtain ⟨-, hf, -⟩ := (Tree.lookIn_of_ne_link hlink).mp hlook
        exact .inl ⟨f, hf⟩
    · exact ⟨hshown, .inl ⟨f, hf⟩⟩

/-! ### Routes and the paths along them -/

/-- Names lead from the root to a directory. If the last of them is a link, it is a directory that
none of the shorter paths on the way leads to. -/
def OpensNew (h : Host) (t : Tree) (root : Path) (names : List Name) : Prop :=
  ∃ place, h.look t true (root.below names) = .ok (place, .directory) ∧
    ∀ l target, h.look t false (root.below names) = .ok (l, .link target) →
      ∀ fewer, fewer <+: names → fewer ≠ names → ¬ h.finds t (root.below fewer) place = true

/-- The directories that a walk is in are those that the paths on the way lead to. -/
theorem Reaches.opened_iff (hr : h.Reaches t start)
    (hroute : t.Route start [] names here outer) (place : Location) :
    (∃ d ∈ here :: outer, d.place = place) ↔
      ∃ fewer, fewer <+: names ∧ h.finds t (start.path.below fewer) place = true := by
  have hne := bytes_ne_nil_of_resolve hr
  induction hroute with
  | start =>
    simp only [List.mem_singleton, exists_eq_left, List.prefix_nil]
    rw [eq_comm]
    exact hr.finds_iff.symm
  | @enter names here inner outer name hroute he ih =>
    have hreach := (hr.route hroute).enters he
    have hpath := (hroute.enter he).path_eq hne
    constructor
    · rintro ⟨d, hd, rfl⟩
      rcases List.mem_cons.mp hd with rfl | hd
      · refine ⟨names ++ [name], List.prefix_rfl, ?_⟩
        rw [← hpath]
        exact hreach.finds_iff.mpr rfl
      · obtain ⟨fewer, hfewer, hfinds⟩ := ih.mp ⟨d, hd, rfl⟩
        exact ⟨fewer, List.prefix_concat_iff.mpr (.inr hfewer), hfinds⟩
    · rintro ⟨fewer, hfewer, hfinds⟩
      rcases List.prefix_concat_iff.mp hfewer with rfl | hfewer
      · rw [← hpath] at hfinds
        exact ⟨inner, List.mem_cons_self, (hreach.finds_iff.mp hfinds).symm⟩
      · obtain ⟨d, hd, hplace⟩ := ih.mpr ⟨fewer, hfewer, hfinds⟩
        exact ⟨d, List.mem_cons_of_mem _ hd, hplace⟩

/-- A walk enters a directory by a name just where the path with that name opens it anew. -/
theorem Reaches.exists_enters_iff (hr : h.Reaches t start)
    (hroute : t.Route start [] names here outer) :
    (∃ inner, t.Enters here outer name inner) ↔
      Path.isHidden name.bytes = false ∧ h.OpensNew t start.path (names ++ [name]) := by
  have hne := bytes_ne_nil_of_resolve hr
  have hhere := hr.route hroute
  have hopened := hr.opened_iff hroute
  unfold OpensNew
  rw [← hroute.join_eq hne]
  constructor
  · rintro ⟨inner, he⟩
    have hinner := hhere.enters he
    have hs := spellingError?_of_resolve hinner
    have hlook := hinner.look_eq
    rw [he.path_eq] at hs hlook
    refine ⟨he.shown, inner.place, hlook, ?_⟩
    intro l target hl fewer hfewer hother hfinds
    obtain ⟨-, hlink⟩ := (hhere.look_link_iff hs).mp hl
    have hfewer := (List.prefix_concat_iff.mp hfewer).resolve_left hother
    obtain ⟨d, hd, hplace⟩ := (hopened inner.place).mpr ⟨fewer, hfewer, hfinds⟩
    exact he.fresh target hlink d hd hplace
  · rintro ⟨hshown, place, hlook, hfresh⟩
    obtain ⟨spare, hres⟩ := look_eq_ok_iff.mp hlook
    have hs := spellingError?_of_resolve hres
    refine ⟨⟨here.path.join name.bytes, place, spare⟩, hshown, rfl, hhere.lookIn_iff.mpr hres, ?_⟩
    intro target hlink d hd hplace
    obtain ⟨fewer, hfewer, hfinds⟩ := (hopened place).mp ⟨d, hd, hplace⟩
    have hother : fewer ≠ names ++ [name] := by
      rintro rfl
      have hle := hfewer.length_le
      rw [List.length_append, List.length_singleton] at hle
      omega
    exact hfresh _ target ((hhere.look_link_iff hs).mpr ⟨rfl, hlink⟩) fewer
      (List.prefix_concat_iff.mpr (.inr hfewer)) hother hfinds

/-- There is a route just where every path on the way opens a directory anew. -/
theorem Reaches.exists_route_iff (hr : h.Reaches t start) (names : List Name) :
    (∃ here outer, t.Route start [] names here outer) ↔
      (∀ name ∈ names, Path.isHidden name.bytes = false) ∧
        ∀ fewer, fewer <+: names → h.OpensNew t start.path fewer := by
  induction names using List.reverseRecOn with
  | nil =>
    refine ⟨fun _ => ⟨by simp, ?_⟩, fun _ => ⟨start, [], .start⟩⟩
    intro fewer hfewer
    obtain rfl := List.prefix_nil.mp hfewer
    refine ⟨start.place, hr.look_eq, ?_⟩
    intro _ _ _ fewer hfewer hother
    exact absurd (List.prefix_nil.mp hfewer) hother
  | append_singleton names name ih =>
    simp only [List.mem_append, List.mem_singleton, List.prefix_concat_iff]
    constructor
    · rintro ⟨here, outer, hroute⟩
      obtain ⟨here, outer, hroute, he⟩ := hroute.exists_enters
      obtain ⟨hshown, hopens⟩ := ih.mp ⟨here, outer, hroute⟩
      obtain ⟨hlast, hnew⟩ := (hr.exists_enters_iff hroute).mp ⟨_, he⟩
      refine ⟨?_, ?_⟩
      · rintro n (hn | rfl)
        · exact hshown n hn
        · exact hlast
      · rintro fewer (rfl | hfewer)
        · exact hnew
        · exact hopens fewer hfewer
    · rintro ⟨hshown, hopens⟩
      obtain ⟨here, outer, hroute⟩ :=
        ih.mpr ⟨fun n hn => hshown n (.inl hn), fun fewer hf => hopens fewer (.inr hf)⟩
      obtain ⟨inner, he⟩ :=
        (hr.exists_enters_iff hroute).mpr ⟨hshown name (.inr rfl), hopens _ (.inl rfl)⟩
      exact ⟨inner, here :: outer, hroute.enter he⟩

/-- From a directory that its path leads to, a walk visits what names that are not hidden lead to
through directories opened anew. -/
theorem Reaches.mem_walk_iff (hr : h.Reaches t start) (hi : h.Inhabits t) :
    .file p last ∈ t.walk start [] ↔
      ∃ dirs, p = start.path.below (dirs ++ [last]) ∧
        (∀ name ∈ dirs ++ [last], Path.isHidden name.bytes = false) ∧
        (∀ names, names <+: dirs → h.OpensNew t start.path names) ∧
        (h.LeadsToFile t p ∨ Path.limit ≤ p.bytes.length ∧ ∃ dir f,
          h.look t true (start.path.below dirs) = .ok (dir, .directory) ∧
          t.get? (last :: dir) = some (.file f)) := by
  have hne := bytes_ne_nil_of_resolve hr
  rw [Tree.mem_walk_iff_route]
  constructor
  · rintro ⟨dirs, here, outer, hroute, hs, rfl⟩
    have hhere := hr.route hroute
    obtain ⟨hshown, hopens⟩ := (hr.exists_route_iff dirs).mp ⟨here, outer, hroute⟩
    obtain ⟨hlast, hfile⟩ := (hhere.shows_iff hi).mp hs
    have hpath : here.path = start.path.below dirs := hroute.path_eq hne
    refine ⟨dirs, hroute.join_eq hne last, ?_, hopens, ?_⟩
    · intro name hn
      rcases List.mem_append.mp hn with hn | hn
      · exact hshown name hn
      · rwa [List.mem_singleton.mp hn]
    · rw [← hpath]
      exact hfile.imp id fun ⟨hlong, f, hf⟩ => ⟨hlong, here.place, f, hhere.look_eq, hf⟩
  · rintro ⟨dirs, rfl, hshown, hopens, hfile⟩
    obtain ⟨here, outer, hroute⟩ := (hr.exists_route_iff dirs).mpr
      ⟨fun name hn => hshown name (List.mem_append_left _ hn), hopens⟩
    have hhere := hr.route hroute
    rw [← hroute.join_eq hne, ← hroute.path_eq hne] at hfile
    rw [← hroute.join_eq hne]
    refine ⟨dirs, here, outer, hroute, ?_, rfl⟩
    refine (hhere.shows_iff hi).mpr ⟨hshown last (by simp), hfile.imp id ?_⟩
    rintro ⟨hlong, dir, f, hlook, hf⟩
    cases hhere.look_eq.symm.trans hlook
    exact ⟨hlong, f, hf⟩

/-! ### The files of a survey -/

/-- From the root, `dirs` lead through directories, and `last` has the extension. Links among the
directories open none a second time, and no name is hidden. -/
structure Matches (h : Host) (t : Tree) (root : Path) (extension : String) (dirs : List Name)
    (last : Name) : Prop where
  shown : ∀ name ∈ dirs ++ [last], Path.isHidden name.bytes = false
  directories : ∀ names, names <+: dirs → h.OpensNew t root names
  hasExtension : ∃ stem tail, last.bytes = stem ++ Path.dot :: tail ∧ Path.dot ∉ tail ∧
    tail = Utf8.ofString (Path.dropDots extension)

theorem mem_survey_files_iff :
    p ∈ (h.survey t root extension).files ↔
      ∃ start last, h.enter? t root = some start ∧ .file p last ∈ t.walk start [] ∧
        Path.extension? last.bytes = some (Utf8.ofString (Path.dropDots extension)) := by
  unfold survey
  cases h.enter? t root with
  | none => simp [Survey.files]
  | some start =>
    simp only [Survey.files, List.mem_filterMap]
    constructor
    · rintro ⟨visit, hv, hp⟩
      cases visit with
      | error e => cases hp
      | file path last =>
        unfold Visit.fileWith? at hp
        rw [Option.ite_none_right_eq_some] at hp
        obtain ⟨hext, hpath⟩ := hp
        obtain rfl := Option.some.inj hpath
        exact ⟨start, last, rfl, hv, hext⟩
    · rintro ⟨start', last, hstart, hv, hext⟩
      obtain rfl := Option.some.inj hstart
      exact ⟨.file p last, hv, by simp [Visit.fileWith?, hext]⟩

theorem eq_file_of_fileWith? {wanted : Bytes} {visit : Visit}
    (hv : visit.fileWith? wanted = some p) : ∃ last, visit = .file p last := by
  cases visit with
  | error e => cases hv
  | file path last =>
    unfold Visit.fileWith? at hv
    rw [Option.ite_none_right_eq_some] at hv
    obtain rfl := Option.some.inj hv.2
    exact ⟨last, rfl⟩

/-- No path is visited twice: different entries of a directory start different paths. -/
theorem nodup_files_of_walk (t : Tree) (wanted : Bytes) (here : OpenDirectory)
    (outer : List OpenDirectory) (hne : here.path.bytes ≠ []) :
    ((t.walk here outer).filterMap (Visit.fileWith? wanted)).Nodup := by
  induction here, outer using t.enters_induction with
  | step here outer ih =>
    rw [Tree.walk_eq, List.filterMap_flatMap, List.nodup_flatMap]
    constructor
    · rintro ⟨name, node⟩ hchild
      rcases Tree.visits_cases outer (Tree.mem_children_iff_get?.mp hchild) with
        ⟨inner, he, heq⟩ | ⟨-, heq⟩ | ⟨errors, heq, -⟩
      · rw [heq]
        apply ih name inner he
        rw [he.path_eq]
        exact here.path.join_ne_nil name
      · rw [heq, List.filterMap_cons]
        split <;> simp
      · have hnil : (errors.map Visit.error).filterMap (Visit.fileWith? wanted) = [] := by
          apply List.filterMap_eq_nil_iff.mpr
          intro visit hv
          obtain ⟨e, -, rfl⟩ := List.mem_map.mp hv
          rfl
        rw [heq, hnil]
        exact List.nodup_nil
    · apply (t.pairwise_children here.place).imp_of_mem
      rintro ⟨name, node⟩ ⟨name', node'⟩ hchild hchild' hother p hp hp'
      obtain ⟨visit, hv, hfile⟩ := List.mem_filterMap.mp hp
      obtain ⟨visit', hv', hfile'⟩ := List.mem_filterMap.mp hp'
      obtain ⟨last, rfl⟩ := eq_file_of_fileWith? hfile
      obtain ⟨last', rfl⟩ := eq_file_of_fileWith? hfile'
      obtain ⟨names, hnames⟩ :=
        Tree.exists_below_of_mem_visits hne (Tree.mem_children_iff_get?.mp hchild) hv
      obtain ⟨names', hnames'⟩ :=
        Tree.exists_below_of_mem_visits hne (Tree.mem_children_iff_get?.mp hchild') hv'
      exact hother (List.cons.inj (Path.below_injective (hnames.symm.trans hnames'))).1

theorem nodup_survey_files (h : Host) (t : Tree) (root : Path) (extension : String) :
    (h.survey t root extension).files.Nodup := by
  unfold survey
  cases henter : h.enter? t root with
  | none => exact List.nodup_nil
  | some start =>
    obtain ⟨rfl, hr⟩ := enter?_eq_some_iff.mp henter
    exact nodup_files_of_walk t _ start [] (bytes_ne_nil_of_resolve hr)

theorem isDirectory_or_survey_files (h : Host) (t : Tree) (root : Path) (extension : String) :
    h.isDirectory t root = true ∨ (h.survey t root extension).files = [] := by
  unfold survey
  cases henter : h.enter? t root with
  | none => exact .inr rfl
  | some start =>
    obtain ⟨rfl, hr⟩ := enter?_eq_some_iff.mp henter
    exact .inl (isDirectory_iff.mpr ⟨_, hr.look_eq⟩)

theorem mem_survey_files_iff_matches (hi : h.Inhabits t) :
    p ∈ (h.survey t root extension).files ↔
      ∃ dirs last, p = root.below (dirs ++ [last]) ∧ h.Matches t root extension dirs last ∧
        (h.LeadsToFile t p ∨ Path.limit ≤ p.bytes.length ∧ ∃ dir f,
          h.look t true (root.below dirs) = .ok (dir, .directory) ∧
          t.get? (last :: dir) = some (.file f)) := by
  rw [mem_survey_files_iff]
  constructor
  · rintro ⟨start, last, henter, hv, hext⟩
    obtain ⟨rfl, hr⟩ := enter?_eq_some_iff.mp henter
    obtain ⟨dirs, hp, hshown, hopens, hfile⟩ := (hr.mem_walk_iff hi).mp hv
    have hlast : Path.isHidden last.bytes = false := hshown last (by simp)
    obtain ⟨stem, hstem, hdot⟩ := (Path.extension?_eq_some_iff hlast).mp hext
    exact ⟨dirs, last, hp, ⟨hshown, hopens, stem, _, hstem, hdot, rfl⟩, hfile⟩
  · rintro ⟨dirs, last, hp, ⟨hshown, hopens, stem, _, hstem, hdot, rfl⟩, hfile⟩
    obtain ⟨place, hroot, -⟩ := hopens [] List.nil_prefix
    obtain ⟨spare, hres⟩ := look_eq_ok_iff.mp hroot
    have hr : h.Reaches t ⟨root, place, spare⟩ := hres
    have hlast : Path.isHidden last.bytes = false := hshown last (by simp)
    refine ⟨⟨root, place, spare⟩, last, enter?_eq_some_iff.mpr ⟨rfl, hr⟩, ?_, ?_⟩
    · exact (hr.mem_walk_iff hi).mpr ⟨dirs, hp, hshown, hopens, hfile⟩
    · exact (Path.extension?_eq_some_iff hlast).mpr ⟨stem, hstem, hdot⟩

/-- A survey lists the files below its root that names lead to, each of them once. A file whose path
is too long to be followed is listed if its directory has it as a file and no link. -/
theorem survey_files_iff (hi : h.Inhabits t) (root : Path) (extension : String) :
    (h.survey t root extension).files.Nodup ∧
      (h.isDirectory t root = true ∨ (h.survey t root extension).files = []) ∧
      ∀ p, p ∈ (h.survey t root extension).files ↔
        ∃ dirs last, p = root.below (dirs ++ [last]) ∧ h.Matches t root extension dirs last ∧
          (h.LeadsToFile t p ∨ Path.limit ≤ p.bytes.length ∧ ∃ dir f,
            h.look t true (root.below dirs) = .ok (dir, .directory) ∧
            t.get? (last :: dir) = some (.file f)) :=
  ⟨h.nodup_survey_files t root extension, h.isDirectory_or_survey_files t root extension,
    fun _ => mem_survey_files_iff_matches hi⟩

/-- A link to a file is listed, and one to the directory that it is in is not entered. -/
theorem survey_files_of_links :
    let h : Host := ⟨[], 7, 0o022⟩
    let src : Name := ⟨Utf8.ofString "src", by decide⟩
    let up : Name := ⟨Utf8.ofString "up", by decide⟩
    let a : Name := ⟨Utf8.ofString "a.tsx", by decide⟩
    let b : Name := ⟨Utf8.ofString "b", by decide⟩
    let t := (((Tree.empty.put [] src .directory).put [] b (.file ⟨0, 0o640, []⟩)).put [src] up
      (.link (Path.ofString "."))).put [src] a (.link (Path.ofString "../b"))
    let root := Path.ofString "src/"
    let files := (h.survey t root ".tsx").files
    h.Inhabits t ∧ files = [Path.ofString "src/a.tsx"] ∧ files.Nodup ∧
      (h.isDirectory t root = true ∨ files = []) ∧
      ∀ p, p ∈ files ↔
        ∃ dirs last, p = root.below (dirs ++ [last]) ∧ h.Matches t root ".tsx" dirs last ∧
          (h.LeadsToFile t p ∨ Path.limit ≤ p.bytes.length ∧ ∃ dir f,
            h.look t true (root.below dirs) = .ok (dir, .directory) ∧
            t.get? (last :: dir) = some (.file f)) := by
  intro h src up a b t root files
  have hi : h.Inhabits t := by decide
  let here : OpenDirectory := ⟨root, [src], Tree.maxLinks⟩
  let visits : List Visit :=
    [.error (.loop (Path.ofString "src/up") root), .file (Path.ofString "src/a.tsx") a]
  have henter : h.enter? t root = some here := rfl
  have hchildren : t.children here.place =
      [(up, .link (Path.ofString ".")), (a, .link (Path.ofString "../b"))] := by decide +kernel
  have hwalk : t.walk here [] = visits := by
    rw [Tree.walk_eq, hchildren]
    rfl
  have hfound : visits.filterMap (Visit.fileWith? (Utf8.ofString (Path.dropDots ".tsx"))) =
      [Path.ofString "src/a.tsx"] := by decide +kernel
  have hfiles : files = [Path.ofString "src/a.tsx"] :=
    survey_files_of_walk henter hwalk hfound
  exact ⟨hi, hfiles, survey_files_iff hi root ".tsx"⟩

/-- A path of 4101 bytes is listed, though it is too long to lead to the file. -/
theorem survey_lists_overlong_path :
    let h : Host := ⟨[], 7, 0o022⟩
    let src : Name := ⟨Utf8.ofString "src", by decide⟩
    let a : Name := ⟨Utf8.ofString "a.tsx", by decide⟩
    let t := (Tree.empty.put [] src .directory).put [src] a (.file ⟨0, 0o644, [0x61]⟩)
    let root : Path := ⟨(List.replicate 2046 [Path.dot, Path.slash]).flatten ++ src.bytes⟩
    ¬ ∀ p, p ∈ (h.survey t root "tsx").files ↔
      ∃ dirs last, p = root.below (dirs ++ [last]) ∧ h.Matches t root "tsx" dirs last ∧
        h.LeadsToFile t p := by
  intro h src a t root hall
  let p := root.below [a]
  have hi : h.Inhabits t := by decide
  have hroot : h.look t true root = .ok ([src], .directory) := by decide +kernel
  have hlong : Path.limit ≤ p.bytes.length := by decide +kernel
  have hmem : p ∈ (h.survey t root "tsx").files := by
    apply (mem_survey_files_iff_matches hi).mpr
    have hext : ∃ stem tail, a.bytes = stem ++ Path.dot :: tail ∧ Path.dot ∉ tail ∧
        tail = Utf8.ofString (Path.dropDots "tsx") :=
      ⟨Utf8.ofString "a", Utf8.ofString "tsx", by decide, by decide, by decide +kernel⟩
    refine ⟨[], a, rfl, ⟨by decide, ?_, hext⟩,
      .inr ⟨hlong, [src], ⟨0, 0o644, [0x61]⟩, hroot, by decide⟩⟩
    intro names hnames
    obtain rfl := List.prefix_nil.mp hnames
    refine ⟨[src], hroot, ?_⟩
    intro _ _ _ fewer hfewer hother
    exact absurd (List.prefix_nil.mp hfewer) hother
  obtain ⟨dirs, last, -, -, place, f, hlook⟩ := (hall p).mp hmem
  have herror : h.look t true p = .error .nameTooLong := by decide +kernel
  rw [herror] at hlook
  cases hlook

end Host

end MarkerSweep
