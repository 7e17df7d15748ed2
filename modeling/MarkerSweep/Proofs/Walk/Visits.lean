import MarkerSweep.Survey

/-!
# Visits of a walk

`walk_eq` gives a walk entry by entry: `visits` is what it comes upon at one entry of a directory,
and below it.
-/

namespace MarkerSweep

namespace Tree

/-- What a walk comes upon at an entry of the innermost of the directories that it is in. -/
def visits (t : Tree) (here : OpenDirectory) (outer : List OpenDirectory) (child : Name × Node) :
    List Visit :=
  let path := here.path.join child.1.bytes
  let hidden := Path.isHidden child.1.bytes
  match child.2 with
  | .file _ => if hidden then [] else [.file path child.1]
  | .directory =>
    if hidden then []
    else
      match path.spellingError? with
      | some e => [.error (.unreadable path e)]
      | none => t.walk ⟨path, child.1 :: here.place, here.spare⟩ (here :: outer)
  | .link _ =>
    match lookIn t here path child.1 with
    | .error e => [.error (.unreadable path e)]
    | .ok (place, .directory, spare) =>
      match (here :: outer).find? fun d => d.place = place with
      | some ancestor => [.error (.loop path ancestor.path)]
      | none => if hidden then [] else t.walk ⟨path, place, spare⟩ (here :: outer)
    | .ok _ => if hidden then [] else [.file path child.1]

theorem walk_eq (t : Tree) (here : OpenDirectory) (outer : List OpenDirectory) :
    t.walk here outer = (t.children here.place).flatMap (t.visits here outer) := by
  rw [walk, List.flatMap_subtype (g := t.visits here outer), List.unattach_attach]
  rintro ⟨name, node⟩ -
  cases node with
  | file f => rfl
  | directory => rfl
  | link target =>
    simp only [visits]
    split
    · next hl => simp only [hl]
    · next hl =>
      simp only [hl]
      split
      · next hf => rw [hf]
      · next hf => rw [hf]
    · next hl => simp only [hl]

end Tree

theorem Host.survey_files_of_walk {h : Host} {t : Tree} {root : Path} {extension : String}
    {start : OpenDirectory} {visits : List Visit} {paths : List Path}
    (henter : h.enter? t root = some start) (hwalk : t.walk start [] = visits)
    (hfound : visits.filterMap
      (Visit.fileWith? (Utf8.ofString (Path.dropDots extension))) = paths) :
    (h.survey t root extension).files = paths := by
  simp only [survey, henter, hwalk, Survey.files, hfound]

end MarkerSweep
