import MarkerSweep.Tree.Access

/-!
# Building a tree

Making entries by path, with the directories they need, and taking them out again.
-/

namespace MarkerSweep

namespace Tree

/-- Makes the directories along the parts of a path that are not there yet. The answer has the
location of the last one. -/
def ensureDirectory (t : Tree) (here : Location) :
    List Bytes → Except SystemError (Location × Tree)
  | [] => .ok (here, t)
  | part :: rest =>
    match t.follow true maxLinks here [Step.ofPart part] with
    | .ok (.present place .directory _) => ensureDirectory t place rest
    | .ok (.present _ _ _) => .error .notDirectory
    | .ok (.absent dir name) => ensureDirectory (t.put dir name .directory) (name :: dir) rest
    | .error e => .error e

/-- The tree without a location and everything below it. -/
def prune (t : Tree) (place : Location) : Tree :=
  ⟨t.entries.filter fun e => !place.isSuffixOf e.place,
    t.nodup.sublist (List.filter_sublist.map Placed.place)⟩

end Tree

namespace Host

/-- Makes the directory at a path, with those above it. -/
def makeDirectory (h : Host) (t : Tree) (p : Path) : Except SystemError Tree :=
  (t.ensureDirectory (p.start h.cwd) p.filledParts).map Prod.snd

/-- Makes the directory that the entry at a path is to be in. -/
def makeParent (h : Host) (t : Tree) (p : Path) : Except SystemError Tree :=
  (t.ensureDirectory (p.start h.cwd) p.filledParts.dropLast).map Prod.snd

/-- Makes the file at a path, with the directories above it, or gives the file that is there other
data and other permission bits. -/
def makeFile (h : Host) (t : Tree) (p : Path) (mode : Nat) (data : Bytes) :
    Except SystemError Tree := do
  let t ← h.makeParent t p
  let (place, t) ← h.openForWriting t p
  return t.modifyFile place fun f => { f with mode := mode, data := data }

/-- Makes a symbolic link at a path, with the directories above it. -/
def makeLink (h : Host) (t : Tree) (p target : Path) : Except SystemError Tree := do
  let t ← h.makeParent t p
  let (dir, name) ← h.slot t p
  return t.put dir name (.link target)

/-- Takes out what is at a path, with everything below it. -/
def removeAll (h : Host) (t : Tree) (p : Path) : Except SystemError Tree :=
  (h.look t false p).map fun found => t.prune found.1

end Host

end MarkerSweep
