import MarkerSweep.Tree

/-!
# What changed between two trees

An entry changed if it is another one than before: a file also if it was put in the place of a file
that held the same.
-/

namespace MarkerSweep

inductive Change where
  | present (node : Node)
  | removed
  deriving DecidableEq

namespace Tree

/-- The entries of `new` that are not in `old`. -/
def additions (old new : Tree) : List (Location × Change) :=
  new.entries.filterMap fun e =>
    if old.get? e.place = some e.node then none else some (e.place, .present e.node)

/-- The locations of `old` at which `new` has nothing. -/
def removals (old new : Tree) : List (Location × Change) :=
  old.entries.filterMap fun e =>
    if new.get? e.place = none then some (e.place, .removed) else none

def changes (old new : Tree) : List (Location × Change) :=
  additions old new ++ removals old new

end Tree

end MarkerSweep
