import MarkerSweep.Path

/-!
# Trees of files

A tree holds directories, regular files and symbolic links, each at a location below the root.
`get?` looks a location up; `put` and `erase` change one entry. `get?_put` and `get?_erase` say
what they do to the look-up, and `erase_put` that erasing an entry just made undoes it.
-/

namespace MarkerSweep

/-- Whether bytes can name an entry of a directory: there are between 1 and 255 of them, they are
neither `.` nor `..`, and none is a slash or zero. -/
def isName (bytes : Bytes) : Bool :=
  bytes != [] && bytes != [Path.dot] && bytes != [Path.dot, Path.dot] &&
    !bytes.contains Path.slash && !bytes.contains 0 && bytes.length ≤ 255

/-- The name of an entry in its directory. -/
structure Name where
  bytes : Bytes
  isName_bytes : isName bytes = true
  deriving DecidableEq

/-- The names on the way from an entry up to the root, the entry's own name first. The root is
the empty location. -/
abbrev Location := List Name

structure File where
  /-- Tells files apart: a file put in the place of another has another serial. -/
  serial : Nat
  mode : Nat
  data : Bytes
  deriving DecidableEq

inductive Node where
  | file (file : File)
  | directory
  /-- A symbolic link to the path in it. -/
  | link (target : Path)
  deriving DecidableEq

/-- An entry of a tree. -/
structure Placed where
  place : Location
  node : Node
  /-- How far below the root it is. Most entries are told apart by it, however long their locations
  are. -/
  depth : Nat
  depth_eq : depth = place.length

namespace Placed

/-- The entry at a location. -/
def put (place : Location) (node : Node) : Placed := ⟨place, node, place.length, rfl⟩

/-- Whether an entry is at a location so far below the root. -/
def isAt (e : Placed) (depth : Nat) (place : Location) : Bool :=
  e.depth == depth && e.place == place

@[simp]
theorem isAt_iff (e : Placed) (place : Location) :
    e.isAt place.length place = true ↔ e.place = place := by
  simp only [isAt, Bool.and_eq_true, beq_iff_eq, e.depth_eq]
  exact ⟨And.right, fun h => ⟨congrArg List.length h, h⟩⟩

/-- An entry with something else in it. -/
def withNode (e : Placed) (node : Node) : Placed := { e with node := node }

end Placed

/-- A tree of files, as a list of its entries from the oldest to the newest, in which every location
occurs once. The root is not listed. -/
structure Tree where
  entries : List Placed
  nodup : (entries.map Placed.place).Nodup

namespace Tree

/-- The tree with nothing in its root. -/
def empty : Tree := ⟨[], List.nodup_nil⟩

/-- What a list of entries has at a location. -/
def lookup (entries : List Placed) (place : Location) : Option Node :=
  let depth := place.length
  (entries.find? fun e => e.isAt depth place).map Placed.node

/-- What is at a location. -/
def get? (t : Tree) : Location → Option Node
  | [] => some .directory
  | name :: dir => lookup t.entries (name :: dir)

/-- Whether there is an entry at a location. -/
def contains (t : Tree) (place : Location) : Bool :=
  let depth := place.length
  t.entries.any fun e => e.isAt depth place

/-- Entries with `node` in the place of what is at `place`. -/
def replace (place : Location) (node : Node) (entries : List Placed) : List Placed :=
  let depth := place.length
  entries.map fun e => if e.isAt depth place then e.withNode node else e

theorem map_place_replace (place : Location) (node : Node) (entries : List Placed) :
    (replace place node entries).map Placed.place = entries.map Placed.place := by
  simp only [replace, List.map_map]
  congr 1
  funext e
  simp only [Function.comp]
  split <;> rfl

theorem contains_iff (t : Tree) (place : Location) :
    t.contains place = true ↔ place ∈ t.entries.map Placed.place := by
  simp [contains]

/-- The tree with `node` as the entry `name` of `dir`: in the place of what was there, or as a new
entry. -/
def put (t : Tree) (dir : Location) (name : Name) (node : Node) : Tree :=
  if h : t.contains (name :: dir) = true then
    ⟨replace (name :: dir) node t.entries, by rw [map_place_replace]; exact t.nodup⟩
  else
    ⟨t.entries ++ [Placed.put (name :: dir) node], by
      rw [contains_iff] at h
      rw [List.map_append, List.nodup_append]
      refine ⟨t.nodup, by simp, ?_⟩
      rintro a ha b hb rfl
      have hp : a = name :: dir := List.mem_singleton.mp hb
      exact h (hp ▸ ha)⟩

def erase (t : Tree) (place : Location) : Tree :=
  let depth := place.length
  ⟨t.entries.filter fun e => !e.isAt depth place,
    t.nodup.sublist (List.filter_sublist.map Placed.place)⟩

/-- The entries of a directory, from the oldest to the newest. -/
def children (t : Tree) (dir : Location) : List (Name × Node) :=
  let depth := dir.length + 1
  t.entries.filterMap fun e =>
    match e.place with
    | name :: _ => if e.isAt depth (name :: dir) then some (name, e.node) else none
    | [] => none

/-- The locations of the directories, the root among them. -/
def directories (t : Tree) : List Location :=
  [] :: (t.entries.filter fun e => e.node = .directory).map Placed.place

/-- How far the lowest entry is below the root. -/
def depth (t : Tree) : Nat :=
  t.entries.foldl (fun n e => max n e.depth) 0

/-- A serial that no file of the tree has. -/
def freshSerial (t : Tree) : Nat :=
  t.entries.foldl (fun n e => match e.node with | .file f => max n (f.serial + 1) | _ => n) 0

/-! ### Look-up after a change -/

theorem lookup_cons_ite (e : Placed) (entries : List Placed) (l : Location) :
    lookup (e :: entries) l = if l = e.place then some e.node else lookup entries l := by
  simp only [lookup, List.find?_cons]
  split
  · next h => rw [if_pos ((e.isAt_iff l).mp h).symm]; rfl
  · next h => rw [if_neg fun hl => by rw [(e.isAt_iff l).mpr hl.symm] at h; cases h]

theorem lookup_append_put {entries : List Placed} {place : Location} (node : Node)
    (h : place ∉ entries.map Placed.place) (l : Location) :
    lookup (entries ++ [Placed.put place node]) l =
      if l = place then some node else lookup entries l := by
  induction entries with
  | nil => rw [List.nil_append, lookup_cons_ite]; rfl
  | cons e rest ih =>
    rw [List.map_cons, List.mem_cons, not_or] at h
    rw [List.cons_append, lookup_cons_ite, ih h.2, lookup_cons_ite]
    by_cases hl : l = e.place
    · rw [if_pos hl, if_pos hl, if_neg fun hp => h.1 (hp.symm.trans hl)]
    · rw [if_neg hl, if_neg hl]

theorem lookup_replace (place : Location) (node : Node) (entries : List Placed) (l : Location) :
    lookup (replace place node entries) l =
      if l = place then (lookup entries place).map fun _ => node else lookup entries l := by
  induction entries with
  | nil => simp [replace, lookup]
  | cons e rest ih =>
    have hr : replace place node (e :: rest) =
        (if e.place = place then e.withNode node else e) :: replace place node rest := by
      simp [replace]
    rw [hr, lookup_cons_ite, ih, lookup_cons_ite, lookup_cons_ite]
    by_cases he : e.place = place
    · subst he
      simp only [if_true, Placed.withNode]
      by_cases hl : l = e.place <;> simp [hl]
    · rw [if_neg he, if_neg (c := place = e.place) fun h => he h.symm]
      by_cases hl : l = place
      · rw [if_pos hl, if_pos hl, if_neg fun h => he (h.symm.trans hl)]
      · rw [if_neg hl, if_neg hl]

theorem mem_map_place_iff (t : Tree) (name : Name) (dir : Location) :
    name :: dir ∈ t.entries.map Placed.place ↔ t.get? (name :: dir) ≠ none := by
  simp only [get?]
  induction t.entries with
  | nil => simp [lookup]
  | cons e rest ih =>
    rw [List.map_cons, List.mem_cons, ih, lookup_cons_ite]
    by_cases h : name :: dir = e.place <;> simp [h]

theorem get?_put (t : Tree) (dir : Location) (name : Name) (node : Node) (l : Location) :
    (t.put dir name node).get? l = if l = name :: dir then some node else t.get? l := by
  cases l with
  | nil => simp [get?]
  | cons n d =>
    by_cases h : t.contains (name :: dir) = true
    · obtain ⟨v, hv⟩ := Option.ne_none_iff_exists'.mp
        ((mem_map_place_iff t name dir).mp ((t.contains_iff _).mp h))
      simp only [get?] at hv
      simp only [get?, put, dif_pos h, lookup_replace, hv, Option.map_some]
    · rw [put, dif_neg h]
      exact lookup_append_put node (fun hm => h ((t.contains_iff _).mpr hm)) _

theorem lookup_filter_isAt (entries : List Placed) (place l : Location) :
    lookup (entries.filter fun e => !e.isAt place.length place) l =
      if l = place then none else lookup entries l := by
  induction entries with
  | nil => simp [lookup]
  | cons e rest ih =>
    rw [List.filter_cons]
    by_cases he : e.place = place
    · rw [(e.isAt_iff place).mpr he, Bool.not_true, if_neg Bool.false_ne_true, ih, lookup_cons_ite,
        he]
      by_cases hl : l = place <;> simp [hl]
    · have hn : e.isAt place.length place = false := by
        rw [← Bool.not_eq_true, Placed.isAt_iff]
        exact he
      rw [hn, Bool.not_false, if_pos rfl, lookup_cons_ite, ih, lookup_cons_ite]
      by_cases hl : l = place
      · rw [if_pos hl, if_pos hl, if_neg fun h => he (h.symm.trans hl)]
      · rw [if_neg hl, if_neg hl]

theorem get?_erase (t : Tree) (name : Name) (dir l : Location) :
    (t.erase (name :: dir)).get? l = if l = name :: dir then none else t.get? l := by
  cases l with
  | nil => simp [get?]
  | cons n d => exact lookup_filter_isAt t.entries (name :: dir) (n :: d)

theorem erase_put {t : Tree} {dir : Location} {name : Name} (h : t.get? (name :: dir) = none)
    (node : Node) : (t.put dir name node).erase (name :: dir) = t := by
  have hm : name :: dir ∉ t.entries.map Placed.place := by
    rw [mem_map_place_iff]; simpa using h
  have hc : ¬ t.contains (name :: dir) = true := fun hc => hm ((t.contains_iff _).mp hc)
  obtain ⟨entries, nodup⟩ := t
  simp only [put, dif_neg hc, erase, List.filter_append]
  congr 1
  have hlast : [Placed.put (name :: dir) node].filter
      (fun e => !e.isAt (name :: dir).length (name :: dir)) = [] := by
    simp [Placed.put, Placed.isAt]
  rw [hlast, List.append_nil, List.filter_eq_self]
  intro e he
  rw [Bool.not_eq_true', ← Bool.not_eq_true, Placed.isAt_iff]
  exact fun hp => hm (hp ▸ List.mem_map_of_mem he)

end Tree

end MarkerSweep
