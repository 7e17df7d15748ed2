/-!
# JSON texts

Values are written in two forms: `compact`, without white space, and `pretty`, with one item a
line and two spaces for each level. In strings only the quote, the backslash and the characters
below U+0020 are escaped.
-/

namespace MarkerSweep

/-- A JSON value, of the kinds that reports need. The fields of an object keep their order. -/
inductive Json where
  | bool (value : Bool)
  | number (value : Nat)
  | text (value : String)
  | list (items : List Json)
  | object (fields : List (String × Json))

namespace Json

/-- The four hexadecimal digits of a character below U+0020. -/
def hexDigits (c : Char) : List Char :=
  let digit (n : Nat) : Char := Nat.digitChar n
  ['0', '0', digit (c.toNat / 16), digit (c.toNat % 16)]

/-- A character as it is written in a string. -/
def escapeChar (c : Char) : List Char :=
  if c = '"' then ['\\', '"']
  else if c = '\\' then ['\\', '\\']
  else if c = '\x08' then ['\\', 'b']
  else if c = '\t' then ['\\', 't']
  else if c = '\n' then ['\\', 'n']
  else if c = '\x0c' then ['\\', 'f']
  else if c = '\r' then ['\\', 'r']
  else if c.toNat < 0x20 then '\\' :: 'u' :: hexDigits c
  else [c]

/-- A text as a JSON string, with its quotes. -/
def quote (s : String) : List Char :=
  '"' :: (s.toList.flatMap escapeChar ++ ['"'])

/-- Texts with a comma between each two. -/
def commaSeparated (texts : List (List Char)) : List Char :=
  [','].intercalate texts

def writeBool (b : Bool) : List Char :=
  (if b then "true" else "false").toList

def writeNumber (n : Nat) : List Char :=
  Nat.toDigits 10 n

mutual

/-- The text of a value without white space. -/
def compact : Json → List Char
  | .bool b => writeBool b
  | .number n => writeNumber n
  | .text s => quote s
  | .list items => '[' :: (commaSeparated (compactItems items) ++ [']'])
  | .object fields => '\x7b' :: (commaSeparated (compactFields fields) ++ ['\x7d'])

def compactItems : List Json → List (List Char)
  | [] => []
  | item :: rest => compact item :: compactItems rest

def compactFields : List (String × Json) → List (List Char)
  | [] => []
  | (name, value) :: rest => (quote name ++ ':' :: compact value) :: compactFields rest

end

/-- A line break and the white space of a level. -/
def newline (level : Nat) : List Char :=
  '\n' :: List.replicate (2 * level) ' '

/-- Texts on lines of their own, one level below `level`, between two brackets. Without texts the
brackets stand side by side. -/
def bracket (level : Nat) (start stop : Char) (texts : List (List Char)) : List Char :=
  if texts.isEmpty then [start, stop]
  else
    start :: (commaSeparated (texts.map fun t => newline (level + 1) ++ t) ++ newline level
      ++ [stop])

mutual

/-- The text of a value over several lines, inside `level` brackets. -/
def prettyAt (level : Nat) : Json → List Char
  | .bool b => writeBool b
  | .number n => writeNumber n
  | .text s => quote s
  | .list items => bracket level '[' ']' (prettyItems (level + 1) items)
  | .object fields => bracket level '\x7b' '\x7d' (prettyFields (level + 1) fields)

def prettyItems (level : Nat) : List Json → List (List Char)
  | [] => []
  | item :: rest => prettyAt level item :: prettyItems level rest

def prettyFields (level : Nat) : List (String × Json) → List (List Char)
  | [] => []
  | (name, value) :: rest =>
    (quote name ++ ':' :: ' ' :: prettyAt level value) :: prettyFields level rest

end

/-- The text of a value over several lines, without a line break at the end. -/
def pretty (value : Json) : List Char :=
  prettyAt 0 value

end Json

end MarkerSweep
