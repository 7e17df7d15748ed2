import MarkerSweep.Program
import MarkerSweep.Snapshot

/-!
# The command

Reads the command line, the environment and the disk, runs the program, and writes what it leaves
behind.
-/

namespace MarkerSweep

def environmentValue (name : String) : IO (Option Bytes) := do
  return (← IO.getEnv name).map Utf8.ofString

/-- The call that the program was started with. -/
def currentCall (arguments : List String) : IO Program.Call := do
  let environment : CommandLine.PerField (Option Bytes) :=
    ⟨← environmentValue CommandLine.Field.root.variable,
      ← environmentValue CommandLine.Field.extension.variable,
      ← environmentValue CommandLine.Field.marker.variable⟩
  return ⟨arguments.map Utf8.ofString, environment, ← environmentValue "CLICOLOR_FORCE",
    ← environmentValue "NO_COLOR"⟩

/-- The tree that a call can reach, and the working directory in it. -/
def currentTree (call : Program.Call) : IO (Host × Tree) := do
  let here := (Snapshot.locate? (← IO.currentDir).toString).getD []
  let host : Host := ⟨here, 1, 0o022⟩
  let t := Snapshot.withDirectories Tree.empty here
  match CommandLine.parse call.arguments call.environment with
  | .error _ => return (host, t)
  | .ok request =>
    match ← (IO.FS.realPath request.root.display).toBaseIO with
    | .error _ => return (host, t)
    | .ok root =>
      match Snapshot.locate? root.toString with
      | none => return (host, t)
      | some place => return (host, ← Snapshot.load t place)

end MarkerSweep

open MarkerSweep in
def main (arguments : List String) : IO UInt32 := do
  let call ← currentCall arguments
  let (host, t) ← currentTree call
  let exit := Program.run call host t Sink.unlimited
  for change in t.changes exit.tree do
    Snapshot.store change
  let output ← IO.getStdout
  output.write ⟨exit.sink.taken.toArray⟩
  output.flush
  IO.eprint exit.messages
  return UInt32.ofNat exit.code
