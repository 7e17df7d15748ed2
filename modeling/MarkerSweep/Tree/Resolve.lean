import MarkerSweep.SystemError
import MarkerSweep.Tree

/-!
# What a path leads to

A path is followed step by step from the root or from the working directory, through the symbolic
links on its way, of which there may be at most `maxLinks`.

`get?_of_follow` says that what a path is found to lead to is what the tree has there.
-/

namespace MarkerSweep

/-- One step along a path. -/
inductive Step where
  /-- To where one is, which has to be a directory. -/
  | stay
  | up
  | down (name : Name)
  /-- To an entry whose name is too long for any directory. -/
  | tooLong
  deriving DecidableEq

/-- The step that a part of a path asks for. -/
def Step.ofPart (part : Bytes) : Step :=
  if part = [Path.dot] then .stay
  else if part = [Path.dot, Path.dot] then .up
  else if h : isName part = true then .down ⟨part, h⟩
  else .tooLong

namespace Path

/-- The parts of a path that are not empty. -/
def filledParts (p : Path) : List Bytes :=
  p.parts.filter (· ≠ [])

/-- The steps of a path. A slash at the end asks for a directory. -/
def steps (p : Path) : List Step :=
  p.filledParts.map Step.ofPart ++ if p.endsInSlash then [.stay] else []

/-- Where a path starts, seen from a directory. -/
def start (p : Path) (here : Location) : Location :=
  if p.isAbsolute then [] else here

/-- The length in bytes from which on a path is too long for the system. -/
def limit : Nat := 4096

/-- The first thing that is wrong with a path's spelling. -/
def spellingError? (p : Path) : Option SystemError :=
  if p.bytes.contains 0 then some .zeroByte
  else if p.bytes = [] then some .noEntry
  else if limit ≤ p.bytes.length then some .nameTooLong
  else none

end Path

inductive Found where
  /-- An entry of the tree. The path may go on through `spare` more links. -/
  | present (place : Location) (node : Node) (spare : Nat)
  /-- Nothing, but a directory that could hold an entry of this name. -/
  | absent (dir : Location) (name : Name)

namespace Tree

/-- The number of symbolic links that a path may lead through. -/
def maxLinks : Nat := 40

/-- Takes steps from the directory `here`. A link on the way is left to `onLink`, together with the
directory it is in and the steps still to take; so is a link at the end, if `followLast`. -/
def takeSteps (t : Tree) (followLast : Bool) (spare : Nat)
    (onLink : Location → List Step → Except SystemError Found) (here : Location) :
    List Step → Except SystemError Found
  | [] =>
    match t.get? here with
    | some node => .ok (.present here node spare)
    | none => .error .noEntry
  | .stay :: rest => takeSteps t followLast spare onLink here rest
  | .up :: rest => takeSteps t followLast spare onLink here.tail rest
  | .tooLong :: _ => .error .nameTooLong
  | .down name :: rest =>
    match t.get? (name :: here) with
    | none => if rest = [] then .ok (.absent here name) else .error .noEntry
    | some .directory => takeSteps t followLast spare onLink (name :: here) rest
    | some (.file f) =>
      if rest = [] then .ok (.present (name :: here) (.file f) spare) else .error .notDirectory
    | some (.link target) =>
      if rest = [] ∧ followLast = false then .ok (.present (name :: here) (.link target) spare)
      else onLink (target.start here) (target.steps ++ rest)

/-- Takes steps from the directory `here` through at most `links` symbolic links. -/
def follow (t : Tree) (followLast : Bool) :
    (links : Nat) → Location → List Step → Except SystemError Found
  | 0 => takeSteps t followLast 0 fun _ _ => .error .tooManyLinks
  | links + 1 => takeSteps t followLast (links + 1) (follow t followLast links)

theorem get?_of_takeSteps {t : Tree} {followLast : Bool} {spare : Nat}
    {onLink : Location → List Step → Except SystemError Found}
    (hlink : ∀ here steps place node left, onLink here steps = .ok (.present place node left) →
      t.get? place = some node)
    {here : Location} {steps : List Step} {place : Location} {node : Node} {left : Nat}
    (h : takeSteps t followLast spare onLink here steps = .ok (.present place node left)) :
    t.get? place = some node := by
  induction steps generalizing here with
  | nil =>
    simp only [takeSteps] at h
    split at h
    · next hn => cases h; exact hn
    · cases h
  | cons step rest ih =>
    cases step with
    | stay => exact ih h
    | up => exact ih h
    | tooLong => cases h
    | down name =>
      simp only [takeSteps] at h
      split at h
      · split at h <;> cases h
      · exact ih h
      · next hf =>
        split at h
        · cases h; exact hf
        · cases h
      · next hf =>
        split at h
        · cases h; exact hf
        · exact hlink _ _ _ _ _ h

theorem get?_of_follow {t : Tree} {followLast : Bool} {links : Nat} {here : Location}
    {steps : List Step} {place : Location} {node : Node} {left : Nat}
    (h : follow t followLast links here steps = .ok (.present place node left)) :
    t.get? place = some node := by
  induction links generalizing here steps place node left with
  | zero => exact get?_of_takeSteps (fun _ _ _ _ _ h => by cases h) h
  | succ links ih => exact get?_of_takeSteps (fun _ _ _ _ _ h => ih h) h

end Tree

/-- What does not change while the program runs: where it was started, and what the system gives
it. -/
structure Host where
  cwd : Location
  processId : Nat
  /-- The permission bits that a new file does not get. -/
  umask : Nat

namespace Host

def freshMode (h : Host) : Nat :=
  0o666 &&& (0o777 ^^^ h.umask)

/-- The permission bits of a directory, which has those that it was made with. -/
def directoryMode (h : Host) : Nat :=
  0o777 &&& (0o777 ^^^ h.umask)

/-- What a path leads to. A symbolic link at its end is followed if `followLast`. -/
def resolve (h : Host) (t : Tree) (followLast : Bool) (p : Path) : Except SystemError Found :=
  match p.spellingError? with
  | some e => .error e
  | none => t.follow followLast Tree.maxLinks (p.start h.cwd) p.steps

/-- The place of what a path leads to, and what it is. -/
def look (h : Host) (t : Tree) (followLast : Bool) (p : Path) :
    Except SystemError (Location × Node) :=
  match h.resolve t followLast p with
  | .ok (.present place node _) => .ok (place, node)
  | .ok (.absent _ _) => .error .noEntry
  | .error e => .error e

theorem get?_of_look {h : Host} {t : Tree} {followLast : Bool} {p : Path} {place : Location}
    {node : Node} (hl : h.look t followLast p = .ok (place, node)) : t.get? place = some node := by
  unfold look resolve at hl
  split at hl
  · next hr =>
    cases hl
    split at hr
    · cases hr
    · exact Tree.get?_of_follow hr
  · cases hl
  · cases hl

def isDirectory (h : Host) (t : Tree) (p : Path) : Bool :=
  match h.look t true p with
  | .ok (_, .directory) => true
  | _ => false

/-- The directory and the name that a path gives to an entry, which need not exist. -/
def slot (h : Host) (t : Tree) (p : Path) : Except SystemError (Location × Name) :=
  match p.spellingError? with
  | some e => .error e
  | none =>
    match p.filledParts.getLast? with
    | none => .error .busy
    | some last =>
      let steps := p.filledParts.dropLast.map Step.ofPart ++ [.stay]
      match t.follow true Tree.maxLinks (p.start h.cwd) steps with
      | .error e => .error e
      | .ok (.absent _ _) => .error .noEntry
      | .ok (.present dir _ _) =>
        match Step.ofPart last with
        | .stay => .error .busy
        | .up => .error .busy
        | .tooLong => .error .nameTooLong
        | .down name => .ok (dir, name)

end Host

end MarkerSweep
