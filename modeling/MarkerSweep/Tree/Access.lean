import MarkerSweep.Tree.Resolve

/-!
# Reading and changing a tree by path

The operations of the system that the program uses. One that fails leaves the tree as it was.
-/

namespace MarkerSweep

namespace Tree

/-- The tree with a file changed by `change`. -/
def modifyFile (t : Tree) (place : Location) (change : File → File) : Tree :=
  match place, t.get? place with
  | name :: dir, some (.file f) => t.put dir name (.file (change f))
  | _, _ => t

end Tree

def Location.path (l : Location) : Path :=
  ⟨Path.slash :: Path.joinSlash (l.reverse.map Name.bytes)⟩

namespace Host

def readFile (h : Host) (t : Tree) (p : Path) : Except SystemError Bytes :=
  match h.look t true p with
  | .ok (_, .file f) => .ok f.data
  | .ok (_, .directory) => .error .isDirectory
  | .ok (_, .link _) => .error .tooManyLinks
  | .error e => .error e

/-- The absolute path of what a path leads to, without links. -/
def realPath (h : Host) (t : Tree) (p : Path) : Except SystemError Path :=
  (h.look t true p).map fun found => found.1.path

/-- Opens the file that a path leads to for writing: it is emptied if it is there and made if it is
not. The answer has its location. -/
def openForWriting (h : Host) (t : Tree) (p : Path) : Except SystemError (Location × Tree) :=
  match h.resolve t true p with
  | .ok (.present place (.file _) _) =>
    .ok (place, t.modifyFile place fun f => { f with data := [] })
  | .ok (.present _ .directory _) => .error .isDirectory
  | .ok (.present _ (.link _) _) => .error .tooManyLinks
  | .ok (.absent dir name) =>
    .ok (name :: dir, t.put dir name (.file ⟨t.freshSerial, h.freshMode, []⟩))
  | .error e => .error e

def remove (h : Host) (t : Tree) (p : Path) : Except SystemError Tree :=
  match h.look t false p with
  | .ok (_, .directory) => .error .isDirectory
  | .ok (place, _) => .ok (t.erase place)
  | .error e => .error e

/-- Moves the file or the link at `source` to `target`, in the place of a file or a link that is
there. Directories are not moved. -/
def rename (h : Host) (t : Tree) (source target : Path) : Except SystemError Tree :=
  match h.look t false source with
  | .error e => .error e
  | .ok (_, .directory) => .error .isDirectory
  | .ok (place, node) =>
    match h.slot t target with
    | .error e => .error e
    | .ok (dir, name) =>
      if target.endsInSlash then .error .notDirectory
      else if t.get? (name :: dir) = some .directory then .error .isDirectory
      else .ok ((t.erase place).put dir name node)

end Host

end MarkerSweep
