/-!
# White space and delimiters

A token of a text ends at a delimiter: a white-space character or a double quote.
-/

namespace MarkerSweep.Text

/-- The code points with the Unicode property White_Space, as ranges with both ends included. -/
def whiteSpaceRanges : List (Nat × Nat) :=
  [(0x09, 0x0D), (0x20, 0x20), (0x85, 0x85), (0xA0, 0xA0), (0x1680, 0x1680), (0x2000, 0x200A),
    (0x2028, 0x2029), (0x202F, 0x202F), (0x205F, 0x205F), (0x3000, 0x3000)]

def isWhiteSpace (c : Char) : Bool :=
  whiteSpaceRanges.any fun r => r.1 ≤ c.toNat && c.toNat ≤ r.2

/-- Whether a character ends a token: white space or a double quote. -/
def isDelimiter (c : Char) : Bool :=
  c == '"' || isWhiteSpace c

theorem isDelimiter_space : isDelimiter ' ' = true := by decide

end MarkerSweep.Text
