import MarkerSweep.Walk

/-!
# Files below a root

A survey lists the files below a root whose names have a given extension, and what the walk had to
go past, both in the order of the walk.
-/

namespace MarkerSweep

/-- What is found below a root. -/
inductive Survey where
  /-- The root is no directory. -/
  | noDirectory
  /-- What the walk went past, and the files that it found. -/
  | listed (errors : List WalkError) (files : List Path)

def Survey.files : Survey → List Path
  | .noDirectory => []
  | .listed _ files => files

def Visit.error? : Visit → Option WalkError
  | .error e => some e
  | .file _ _ => none

/-- The path of a visited file whose name has a given extension. -/
def Visit.fileWith? (extension : Bytes) : Visit → Option Path
  | .file path name => if Path.extension? name.bytes = some extension then some path else none
  | .error _ => none

/-- The files below a root that have an extension, whose leading full stops do not count. -/
def Host.survey (h : Host) (t : Tree) (root : Path) (extension : String) : Survey :=
  match h.enter? t root with
  | none => .noDirectory
  | some start =>
    let visits := t.walk start []
    let wanted := Utf8.ofString (Path.dropDots extension)
    .listed (visits.filterMap Visit.error?) (visits.filterMap (Visit.fileWith? wanted))

end MarkerSweep
