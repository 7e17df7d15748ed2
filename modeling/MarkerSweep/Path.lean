import MarkerSweep.Text.Utf8

/-!
# Paths

A path is a sequence of bytes in which slashes separate the parts. It is kept as it was spelled;
`display` is only for reading. `components` is what two spellings of one path have in common:
repeated and trailing slashes and inner `.` parts do not count.
-/

namespace MarkerSweep

structure Path where
  bytes : Bytes
  deriving DecidableEq, Repr

namespace Path

/-- The byte that separates the parts of a path. -/
def slash : UInt8 := 0x2F

/-- The byte of a full stop. -/
def dot : UInt8 := 0x2E

def ofString (s : String) : Path :=
  ⟨Utf8.ofString s⟩

/-- The path as text, with U+FFFD where its bytes are not UTF-8. -/
def display (p : Path) : String :=
  Utf8.display p.bytes

/-- The parts between slashes, of which there is one more than there are slashes. -/
def splitSlash : Bytes → List Bytes
  | [] => [[]]
  | b :: rest =>
    if b = slash then [] :: splitSlash rest
    else
      match splitSlash rest with
      | part :: parts => (b :: part) :: parts
      | [] => [[b]]

def parts (p : Path) : List Bytes :=
  splitSlash p.bytes

def isAbsolute (p : Path) : Bool :=
  p.bytes.head? == some slash

def endsInSlash (p : Path) : Bool :=
  p.bytes.getLast? == some slash

/-- The path of an entry called `name` in the directory `p`. -/
def join (p : Path) (name : Bytes) : Path :=
  if p.bytes.isEmpty || p.endsInSlash then ⟨p.bytes ++ name⟩ else ⟨p.bytes ++ slash :: name⟩

/-! ### Components -/

/-- What a part of a path stands for. -/
inductive Component where
  /-- The slash at the start of an absolute path. -/
  | root
  /-- A full stop at the start of a path. -/
  | current
  | parent
  | normal (name : Bytes)
  deriving DecidableEq, Repr

/-- Whether a part stands for nothing when it is not the first: it is empty or one full stop. -/
def isInert (part : Bytes) : Bool :=
  part == [] || part == [dot]

/-- The component of a part that is not the first one. -/
def innerComponent? (part : Bytes) : Option Component :=
  if isInert part then none
  else if part = [dot, dot] then some .parent
  else some (.normal part)

def components (p : Path) : List Component :=
  if p.isAbsolute then .root :: p.parts.filterMap innerComponent?
  else
    match p.parts with
    | [] => []
    | first :: rest =>
      if first = [dot] then .current :: rest.filterMap innerComponent?
      else (first :: rest).filterMap innerComponent?

/-- The name that a path ends in, if its last component is one. -/
def fileName? (p : Path) : Option Bytes :=
  match p.components.getLast? with
  | some (.normal name) => some name
  | _ => none

/-! ### Siblings -/

/-- A list of parts without the inert ones at its end. -/
def trimInert (parts : List Bytes) : List Bytes :=
  (parts.reverse.dropWhile isInert).reverse

/-- The parts in front of the last one that is not inert. -/
def dropLastPart (parts : List Bytes) : List Bytes :=
  trimInert (trimInert parts).dropLast

def joinSlash (parts : List Bytes) : Bytes :=
  [slash].intercalate parts

theorem splitSlash_ne_nil (bytes : Bytes) : splitSlash bytes ≠ [] := by
  cases bytes with
  | nil => simp [splitSlash]
  | cons b rest =>
    rw [splitSlash]
    split
    · simp
    · split <;> simp

/-- The parts of bytes, written with slashes between them, are the bytes. -/
theorem joinSlash_splitSlash (bytes : Bytes) : joinSlash (splitSlash bytes) = bytes := by
  induction bytes with
  | nil => rfl
  | cons b rest ih =>
    have hne := splitSlash_ne_nil rest
    rw [splitSlash]
    cases hp : splitSlash rest with
    | nil => exact absurd hp hne
    | cons part parts =>
      rw [hp] at ih
      rw [← ih]
      split
      · next hb => cases parts <;> simp [joinSlash, List.intercalate, hb]
      · cases parts <;> simp [joinSlash, List.intercalate]

/-- The directory part of a path that ends in a name: a leading slash or full stop stays. -/
def directory (p : Path) : Path :=
  match p.parts with
  | [] => p
  | first :: rest =>
    if p.isAbsolute then ⟨slash :: joinSlash (dropLastPart rest)⟩
    else if first = [dot] then ⟨joinSlash ([dot] :: dropLastPart rest)⟩
    else ⟨joinSlash (dropLastPart (first :: rest))⟩

/-- The path with `name` in the place of the name it ends in. Where it ends in none, `name` is put
behind it. -/
def withFileName (p : Path) (name : Bytes) : Path :=
  if p.fileName?.isSome then p.directory.join name else p.join name

/-! ### Names of entries -/

/-- What follows the last full stop of a name, unless the stop is its first byte. -/
def extension? (name : Bytes) : Option Bytes :=
  let tail := (name.reverse.takeWhile (· ≠ dot)).reverse
  if tail.length + 1 < name.length then some tail else none

def isHidden (name : Bytes) : Bool :=
  name.head? == some dot

/-- A text without its leading full stops. -/
def dropDots (s : String) : String :=
  String.ofList (s.toList.dropWhile (· == '.'))

end Path

end MarkerSweep
