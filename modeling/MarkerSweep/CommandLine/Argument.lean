import MarkerSweep.Text.Utf8

/-!
# Arguments

An argument is told by its first bytes: two hyphens start a long name, one hyphen a cluster of
letters, and everything else is plain, a single hyphen too.
-/

namespace MarkerSweep.CommandLine

def hyphen : UInt8 := 0x2D

def equals : UInt8 := 0x3D

/-- An argument, told by how it starts. -/
inductive Argument where
  /-- Two hyphens and nothing else. -/
  | escape
  /-- A name after two hyphens, and what follows the first equals sign, if there is one. -/
  | long (name : Bytes) (value : Option Bytes)
  /-- One hyphen, and letters behind it. -/
  | cluster (letters : Bytes)
  /-- Anything else. -/
  | plain (text : Bytes)
  deriving DecidableEq, Repr

/-- What stands in front of the first equals sign, and what stands behind it, if there is one. -/
def splitEquals : Bytes → Bytes × Option Bytes
  | [] => ([], none)
  | b :: rest =>
    if b = equals then ([], some rest)
    else ((b :: (splitEquals rest).1), (splitEquals rest).2)

theorem splitEquals_append {name value : Bytes} (h : equals ∉ name) :
    splitEquals (name ++ equals :: value) = (name, some value) := by
  induction name with
  | nil => simp [splitEquals]
  | cons b rest ih =>
    rw [List.mem_cons, not_or] at h
    rw [List.cons_append, splitEquals, if_neg fun e => h.1 e.symm, ih h.2]

def Argument.ofBytes (bytes : Bytes) : Argument :=
  match bytes with
  | a :: b :: rest =>
    if a = hyphen then
      if b = hyphen then
        if rest = [] then .escape else .long (splitEquals rest).1 (splitEquals rest).2
      else .cluster (b :: rest)
    else .plain bytes
  | _ => .plain bytes

end MarkerSweep.CommandLine
