/-!
# UTF-8

Bytes are cut into pieces: characters, and maximal subparts that no character can start with.
`decode` gives the characters or says where the first bad piece stands; `lossy` writes a
replacement character for each bad piece.
-/

namespace MarkerSweep

/-- A sequence of bytes: file data, a path, an argument. -/
abbrev Bytes := List UInt8

namespace Utf8

def encode (text : List Char) : Bytes :=
  text.flatMap String.utf8EncodeChar

/-- A piece of a byte sequence, cut from its start. -/
inductive Piece where
  /-- The bytes of one character. -/
  | char (c : Char)
  /-- So many bytes that start no character, followed by a byte that cannot continue them. -/
  | invalid (length : Nat)
  /-- The data end inside the bytes of a character. -/
  | truncated
  deriving DecidableEq, Repr

/-- What a first byte says about the bytes after it: how many there are, and which values the
one right after it may have. `payload` holds the bits that the first byte gives. -/
inductive Lead where
  | single
  | two (payload : Nat)
  | three (payload : Nat) (low high : UInt8)
  | four (payload : Nat) (low high : UInt8)
  | none

/-- The kind of a first byte. -/
def lead (b : UInt8) : Lead :=
  if b < 0x80 then .single
  else if b < 0xC2 then .none
  else if b < 0xE0 then .two (b.toNat - 0xC0)
  else if b < 0xF0 then
    .three (b.toNat - 0xE0) (if b = 0xE0 then 0xA0 else 0x80) (if b = 0xED then 0x9F else 0xBF)
  else if b < 0xF5 then
    .four (b.toNat - 0xF0) (if b = 0xF0 then 0x90 else 0x80) (if b = 0xF4 then 0x8F else 0xBF)
  else .none

/-- Whether `b` lies in the range from `low` to `high`. -/
def within (low high b : UInt8) : Bool :=
  low ≤ b && b ≤ high

/-- `payload` with the six bits of one more byte. -/
def extend (payload : Nat) (b : UInt8) : Nat :=
  payload * 64 + (b.toNat - 0x80)

/-- The pieces of a byte sequence, put in front of `done`, which is in reverse. -/
def piecesOnto (done : List Piece) : Bytes → List Piece
  | [] => done.reverse
  | a :: rest =>
    match lead a with
    | .single => piecesOnto (.char (Char.ofNat a.toNat) :: done) rest
    | .none => piecesOnto (.invalid 1 :: done) rest
    | .two p =>
      match rest with
      | [] => (.truncated :: done).reverse
      | b :: rest₂ =>
        if within 0x80 0xBF b then piecesOnto (.char (Char.ofNat (extend p b)) :: done) rest₂
        else piecesOnto (.invalid 1 :: done) (b :: rest₂)
    | .three p low high =>
      match rest with
      | [] => (.truncated :: done).reverse
      | b :: rest₂ =>
        if within low high b then
          match rest₂ with
          | [] => (.truncated :: done).reverse
          | c :: rest₃ =>
            if within 0x80 0xBF c then
              piecesOnto (.char (Char.ofNat (extend (extend p b) c)) :: done) rest₃
            else piecesOnto (.invalid 2 :: done) (c :: rest₃)
        else piecesOnto (.invalid 1 :: done) (b :: rest₂)
    | .four p low high =>
      match rest with
      | [] => (.truncated :: done).reverse
      | b :: rest₂ =>
        if within low high b then
          match rest₂ with
          | [] => (.truncated :: done).reverse
          | c :: rest₃ =>
            if within 0x80 0xBF c then
              match rest₃ with
              | [] => (.truncated :: done).reverse
              | d :: rest₄ =>
                if within 0x80 0xBF d then
                  piecesOnto (.char (Char.ofNat (extend (extend (extend p b) c) d)) :: done) rest₄
                else piecesOnto (.invalid 3 :: done) (d :: rest₄)
            else piecesOnto (.invalid 2 :: done) (c :: rest₃)
        else piecesOnto (.invalid 1 :: done) (b :: rest₂)

/-- The pieces of a byte sequence, in order. -/
def pieces (bytes : Bytes) : List Piece :=
  piecesOnto [] bytes

/-- Why bytes are not UTF-8. -/
structure Fault where
  /-- How many bytes stand before the first bad piece. -/
  index : Nat
  /-- How long the bad piece is; nothing when the data end inside a character. -/
  length : Option Nat
  deriving DecidableEq, Repr

def Fault.message : Fault → String
  | ⟨index, some length⟩ => s!"invalid utf-8 sequence of {length} bytes from index {index}"
  | ⟨index, none⟩ => s!"incomplete utf-8 byte sequence from index {index}"

/-- The characters of the pieces behind `done`, which is in reverse and `index` bytes long. -/
def charactersOnto (done : List Char) (index : Nat) : List Piece → Except Fault (List Char)
  | [] => .ok done.reverse
  | .char c :: rest => charactersOnto (c :: done) (index + c.utf8Size) rest
  | .invalid n :: _ => .error ⟨index, some n⟩
  | .truncated :: _ => .error ⟨index, none⟩

/-- The text whose UTF-8 bytes these are, or where they stop being UTF-8. -/
def decode (bytes : Bytes) : Except Fault (List Char) :=
  charactersOnto [] 0 (pieces bytes)

/-- The character of a piece, with U+FFFD for a bad one. -/
def Piece.shown : Piece → Char
  | .char c => c
  | .invalid _ => '\uFFFD'
  | .truncated => '\uFFFD'

/-- The bytes as text, with U+FFFD for every bad piece. -/
def lossy (bytes : Bytes) : List Char :=
  (pieces bytes).map Piece.shown

def display (bytes : Bytes) : String :=
  String.ofList (lossy bytes)

def ofString (s : String) : Bytes :=
  encode s.toList

end Utf8

end MarkerSweep
