import MarkerSweep.Marker
import MarkerSweep.Path.Order

/-!
# Settings

What a run works on. Settings can be anything; `Settings.marker?` checks them and gives the marker
that they describe.
-/

namespace MarkerSweep

/-- The settings of a run. -/
structure Settings where
  /-- The directory that is searched. -/
  root : Path
  /-- The extension of the files that are swept. -/
  extension : String
  /-- The text that tokens start with. -/
  marker : String
  /-- Whether files are left as they are. -/
  dryRun : Bool
  deriving DecidableEq, Repr

inductive Settings.Fault where
  | emptyExtension
  | marker (fault : Marker.Fault)
  deriving DecidableEq, Repr

def Settings.Fault.message : Settings.Fault → String
  | .emptyExtension => "File extension must not be empty"
  | .marker fault => fault.message

namespace Settings

/-- Where nothing is said, dark-mode classes are taken out of the `tsx` files below `src`. -/
def standard : Settings where
  root := Path.ofString "src"
  extension := "tsx"
  marker := Marker.dark.text
  dryRun := false

/-- The settings with another extension, whose leading full stops are dropped. -/
def withExtension (s : Settings) (extension : String) : Settings :=
  { s with extension := Path.dropDots extension }

/-- The marker that the settings describe. An extension of full stops alone is a fault, and comes
before any fault of the marker. -/
def marker? (s : Settings) : Except Fault Marker :=
  if Path.dropDots s.extension = "" then .error .emptyExtension
  else
    match Marker.ofText? s.marker with
    | .ok marker => .ok marker
    | .error fault => .error (.marker fault)

/-- Whether these are the standard settings, with the root spelled in any way that `Path.same`
takes for the same. -/
def isStandard (s : Settings) : Bool :=
  s.root.same standard.root && s.extension == standard.extension && s.marker == standard.marker &&
    s.dryRun == standard.dryRun

theorem marker?_standard : standard.marker? = .ok Marker.dark := by
  have h : Path.dropDots standard.extension ≠ "" := by decide +kernel
  rw [marker?, if_neg h]
  simp only [standard, Marker.ofText?_text]

end Settings

end MarkerSweep
