import MarkerSweep.Path

/-!
# The order of paths

Paths are ordered by their components and, among paths with the same components, by their
displays. `Path.same` is the equality that goes with it.
-/

namespace MarkerSweep.Path

def Component.rank : Component → Nat
  | .root => 0
  | .current => 1
  | .parent => 2
  | .normal _ => 3

/-- Byte sequences in lexicographic order. -/
def compareBytes (a b : Bytes) : Ordering :=
  List.compareLex compare a b

/-- Components by kind, names among themselves by their bytes. -/
def Component.compare : Component → Component → Ordering
  | .normal a, .normal b => compareBytes a b
  | a, b => Ord.compare a.rank b.rank

/-- What paths are compared by. -/
structure Key where
  components : List Component
  shown : List Char
  deriving DecidableEq

def key (p : Path) : Key := ⟨p.components, Utf8.lossy p.bytes⟩

/-- Keys by components, then by display. -/
def Key.compare (a b : Key) : Ordering :=
  (List.compareLex Component.compare a.components b.components).then
    (List.compareLex Ord.compare a.shown b.shown)

protected def compare (p q : Path) : Ordering :=
  p.key.compare q.key

/-- Whether two paths have the same components and the same display. -/
def same (p q : Path) : Bool :=
  p.key == q.key

/-- The positions of keys from the least to the greatest. -/
def Key.sortedPositions (keys : List Key) : List Nat :=
  (keys.zipIdx.mergeSort fun a b => (a.1.compare b.1).isLE).map Prod.snd

/-- The positions of the paths from the least path to the greatest. -/
def sortedPositions (paths : List Path) : List Nat :=
  Key.sortedPositions (paths.map key)

def sortByBytes (paths : List Path) : List Path :=
  paths.mergeSort fun p q => (compareBytes p.bytes q.bytes).isLE

end MarkerSweep.Path
