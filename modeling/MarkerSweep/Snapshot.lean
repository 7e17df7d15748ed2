import MarkerSweep.Tree.Access
import MarkerSweep.Tree.Change

/-!
# Snapshots of a disk

The part of the disk that a sweep can reach is read into a tree, and the changes of the tree are
written back. Files are written in place, so that they keep the permission bits that they have.
Links are kept with the absolute path of what they lead to, which is read too.
-/

namespace MarkerSweep.Snapshot

/-- The location of an absolute path, if every part of it can be a name. -/
def locate? (path : String) : Option Location :=
  ((Path.ofString path).parts.filter (· ≠ [])).foldl (fun found part =>
    match found with
    | none => none
    | some dir => if h : isName part = true then some (⟨part, h⟩ :: dir) else none) (some [])

def diskPath (l : Location) : String :=
  l.path.display

/-- The tree with the directories on the way to a location. -/
def withDirectories (t : Tree) : Location → Tree
  | [] => t
  | name :: dir =>
    let t := withDirectories t dir
    match t.get? (name :: dir) with
    | none => t.put dir name .directory
    | some _ => t

/-- The bytes of a file on the disk, or nothing if it cannot be read. -/
def fileData (path : String) : IO Bytes := do
  match ← (IO.FS.readBinFile path).toBaseIO with
  | .ok data => return data.toList
  | .error _ => return []

/-- A path that no snapshot has an entry for: what a link that leads nowhere is given. A link that
cannot be followed for another reason is made to lead to itself. -/
def nowhere : Path := Path.ofString "/nowhere/nothing"

/-- Reads what is at a location, and everything below it, if it was not read yet. -/
partial def load (t : Tree) (l : Location) : IO Tree := do
  match l with
  | [] => loadChildren t []
  | name :: dir =>
    let entry : IO.FS.DirEntry := { root := diskPath dir, fileName := Utf8.display name.bytes }
    match ← entry.path.symlinkMetadata.toBaseIO with
    | .error _ => return t
    | .ok info =>
      if (t.get? l).isSome && info.type != .dir then return t
      let t := withDirectories t dir
      match info.type with
      | .file => return t.put dir name (.file ⟨t.freshSerial, 0o644, ← fileData (diskPath l)⟩)
      | .dir => loadChildren (withDirectories t l) l
      | .symlink =>
        match ← (IO.FS.realPath entry.path).toBaseIO with
        | .error (.noFileOrDirectory ..) => return t.put dir name (.link nowhere)
        | .error _ => return t.put dir name (.link l.path)
        | .ok target =>
          let t := t.put dir name (.link (Path.ofString target.toString))
          match locate? target.toString with
          | some place => if place.isSuffixOf l then return t else load t place
          | none => return t
      | .other => return t
where
  loadChildren (t : Tree) (dir : Location) : IO Tree := do
    if !(t.children dir).isEmpty then return t
    let here ← IO.FS.realPath (diskPath dir)
    match ← here.readDir.toBaseIO with
    | .error _ => return t
    | .ok entries =>
      let mut t := t
      for entry in entries do
        let name := Utf8.ofString entry.fileName
        if h : isName name = true then
          t ← load t (⟨name, h⟩ :: dir)
      return t

def store (change : Location × Change) : IO Unit :=
  match change with
  | (l, .present (.file f)) => IO.FS.writeBinFile (diskPath l) ⟨f.data.toArray⟩
  | (l, .present .directory) => IO.FS.createDir (diskPath l)
  | (_, .present (.link _)) => pure ()
  | (l, .removed) => IO.FS.removeFile (diskPath l)

end MarkerSweep.Snapshot
