import MarkerSweep.Tree.Access

/-!
# Texts in files

`readText` reads a file as UTF-8. `writeAtomic` writes a file so that it is either replaced as a
whole or left alone: the data go into a temporary file beside it, which is then moved over it.
-/

namespace MarkerSweep

inductive FileError where
  | io (path : Path) (cause : SystemError)
  | decode (path : Path) (fault : Utf8.Fault)
  deriving DecidableEq, Repr

def FileError.message : FileError → String
  | .io path cause => "I/O error at " ++ path.display ++ ": " ++ cause.message
  | .decode path fault => path.display ++ " is not valid UTF-8 text: " ++ fault.message

namespace Host

/-- The text in the file that a path leads to. -/
def readText (h : Host) (t : Tree) (p : Path) : Except FileError (List Char) :=
  match h.readFile t p with
  | .error e => .error (.io p e)
  | .ok data =>
    match Utf8.decode data with
    | .error fault => .error (.decode p fault)
    | .ok text => .ok text

/-- The path that a write to `p` replaces: where `p` is a symbolic link, what it leads to. -/
def writeTarget (h : Host) (t : Tree) (p : Path) : Except FileError Path :=
  match h.look t false p with
  | .ok (_, .link _) =>
    match h.realPath t p with
    | .ok real => .ok real
    | .error e => .error (.io p e)
  | _ => .ok p

/-- What the names of the temporary files of this process end in. -/
def tempSuffix (h : Host) : Bytes :=
  Utf8.ofString ("." ++ toString h.processId ++ ".tmp")

/-- The name of the temporary file for a file called `name`. -/
def tempName (h : Host) (name : Bytes) : Bytes :=
  Path.dot :: (name ++ h.tempSuffix)

def tempPath (h : Host) (target : Path) : Path :=
  target.withFileName (h.tempName (target.fileName?.getD []))

/-- The permission bits of what a path leads to. -/
def modeOf? (h : Host) (t : Tree) (p : Path) : Option Nat :=
  match h.look t true p with
  | .ok (_, .file f) => some f.mode
  | .ok (_, .directory) => some h.directoryMode
  | _ => none

/-- Puts `data` into an open file, and gives it the permission bits of what is at `target`, if
there is anything. -/
def fill (h : Host) (t : Tree) (place : Location) (target : Path) (data : Bytes) : Tree :=
  let written := t.modifyFile place fun f => { f with data := data }
  match h.modeOf? written target with
  | some mode => written.modifyFile place fun f => { f with mode := mode }
  | none => written

/-- The tree without what is at a path, or as it is where that cannot be removed. -/
def discard (h : Host) (t : Tree) (p : Path) : Tree :=
  match h.remove t p with
  | .ok t' => t'
  | .error _ => t

/-- Writes `data` to the file at `target`, which is no link, by way of a temporary file. -/
def replaceFile (h : Host) (t : Tree) (target : Path) (data : Bytes) :
    Except FileError Unit × Tree :=
  let temp := h.tempPath target
  match h.openForWriting t temp with
  | .error e => (.error (.io temp e), h.discard t temp)
  | .ok (place, opened) =>
    let filled := h.fill opened place target data
    match h.rename filled temp target with
    | .error e => (.error (.io target e), h.discard filled temp)
    | .ok done => (.ok (), done)

/-- Writes `data` to the file at `p`. A link at `p` stays, and what it leads to is written. -/
def writeAtomic (h : Host) (t : Tree) (p : Path) (data : Bytes) : Except FileError Unit × Tree :=
  match h.writeTarget t p with
  | .error e => (.error e, t)
  | .ok target => h.replaceFile t target data

end Host

end MarkerSweep
