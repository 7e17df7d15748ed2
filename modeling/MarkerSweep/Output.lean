import MarkerSweep.SystemError
import MarkerSweep.Text.Utf8

/-!
# Outputs

An output takes bytes, all of them or only so many. Of a write that does not fit it takes the part
that does, and from then on it is full.
-/

namespace MarkerSweep

inductive OutputFault where
  /-- Nobody reads it any more. -/
  | brokenPipe
  /-- The system refused it. -/
  | system (cause : SystemError)
  deriving DecidableEq, Repr

def OutputFault.message : OutputFault → String
  | .brokenPipe => "broken pipe"
  | .system cause => cause.message

structure Sink where
  /-- How many more bytes it takes; nothing if there is no limit. -/
  room : Option Nat
  /-- What is wrong with a write that does not fit. -/
  fault : OutputFault
  /-- What it took so far. -/
  taken : Bytes
  deriving DecidableEq, Repr

namespace Sink

def unlimited : Sink := ⟨none, .brokenPipe, []⟩

/-- An output that takes so many bytes and then breaks with a fault. -/
def limited (room : Nat) (fault : OutputFault) : Sink := ⟨some room, fault, []⟩

def write (s : Sink) (bytes : Bytes) : Except OutputFault Unit × Sink :=
  match s.room with
  | none => (.ok (), { s with taken := s.taken ++ bytes })
  | some room =>
    if bytes.length ≤ room then
      (.ok (), { s with room := some (room - bytes.length), taken := s.taken ++ bytes })
    else (.error s.fault, { s with room := some 0, taken := s.taken ++ bytes.take room })

def writeText (s : Sink) (text : List Char) : Except OutputFault Unit × Sink :=
  s.write (Utf8.encode text)

/-- Writes a text and then a line break. -/
def writeLine (s : Sink) (line : String) : Except OutputFault Unit × Sink :=
  match s.writeText line.toList with
  | (.ok (), s) => s.writeText ['\n']
  | (.error e, s) => (.error e, s)

end Sink

end MarkerSweep
