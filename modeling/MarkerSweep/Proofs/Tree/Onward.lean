import MarkerSweep.Proofs.Path.Below
import MarkerSweep.Proofs.Tree.Lookup

/-!
# Going on from a directory

Where a path leads to a directory, the path of an entry of it leads to what is found from the
directory itself: `resolve_join`. So a walk that goes on from open directories comes to the places
that its paths lead to.
-/

namespace MarkerSweep

namespace Tree

variable {t : Tree} {followLast : Bool} {spare links left : Nat} {here place : Location}
  {first second : List Step}

theorem takeSteps_stay {onLink : Location → List Step → Except SystemError Found}
    (hne : second ≠ [])
    (hlink : ∀ here first, onLink here (first ++ .stay :: second) = onLink here (first ++ second)) :
    takeSteps t followLast spare onLink here (first ++ .stay :: second) =
      takeSteps t followLast spare onLink here (first ++ second) := by
  induction first generalizing here with
  | nil => rfl
  | cons step rest ih =>
    cases step with
    | stay => exact ih
    | up => exact ih
    | tooLong => rfl
    | down name =>
      have hrest : rest ++ second ≠ [] := by simp [hne]
      have hstay : rest ++ .stay :: second ≠ [] := by simp
      simp only [List.cons_append, takeSteps, hrest, hstay, false_and, if_false, ih]
      split
      · rfl
      · rfl
      · rfl
      · rw [← List.append_assoc, hlink, List.append_assoc]

theorem follow_stay (hne : second ≠ []) :
    follow t followLast links here (first ++ .stay :: second) =
      follow t followLast links here (first ++ second) := by
  induction links generalizing here first with
  | zero => exact takeSteps_stay hne fun _ _ => rfl
  | succ links ih => exact takeSteps_stay hne fun _ _ => ih

theorem takeSteps_onward {onLink onLink' : Location → List Step → Except SystemError Found}
    {goOn : Except SystemError Found} (hne : second ≠ [])
    (hend : left = spare → takeSteps t followLast spare onLink' place second = goOn)
    (hlink : ∀ here first, onLink here first = .ok (.present place .directory left) →
      onLink' here (first ++ second) = goOn)
    (h : takeSteps t true spare onLink here first = .ok (.present place .directory left)) :
    takeSteps t followLast spare onLink' here (first ++ second) = goOn := by
  induction first generalizing here with
  | nil =>
    simp only [takeSteps] at h
    split at h
    · cases h
      exact hend rfl
    · cases h
  | cons step rest ih =>
    cases step with
    | stay => exact ih h
    | up => exact ih h
    | tooLong => cases h
    | down name =>
      simp only [List.cons_append, takeSteps] at h ⊢
      split at h
      · split at h <;> cases h
      · exact ih h
      · split at h <;> cases h
      · rw [if_neg (by simp)] at h
        rw [if_neg (by simp [hne]), ← List.append_assoc]
        exact hlink _ _ h

/-- From a directory that steps lead to, further steps lead on as if they were taken together. -/
theorem follow_onward (hne : second ≠ [])
    (h : follow t true links here first = .ok (.present place .directory left)) :
    follow t followLast links here (first ++ second) = follow t followLast left place second := by
  induction links generalizing here first with
  | zero =>
    apply takeSteps_onward hne _ (fun _ _ h => by cases h) h
    rintro rfl
    rfl
  | succ links ih =>
    apply takeSteps_onward hne _ (fun _ _ h => ih h) h
    rintro rfl
    rfl

/-- The steps of a path of an entry are those of the path of its directory, without the stay for a
slash at its end. -/
theorem follow_join {p : Path} (name : Name)
    (h : follow t true links here p.steps = .ok (.present place .directory left)) :
    follow t followLast links here (p.join name.bytes).steps =
      follow t followLast left place [.down name] := by
  have hsteps : (p.join name.bytes).steps = p.filledParts.map Step.ofPart ++ [.down name] := by
    have hslash := Path.endsInSlash_join p name.bytes_ne_nil name.slash_not_mem
    rw [Path.steps, hslash, Path.filledParts_join p name.bytes_ne_nil name.slash_not_mem]
    simp [Name.ofPart_bytes]
  rw [hsteps]
  unfold Path.steps at h
  by_cases hp : p.endsInSlash = true
  · rw [if_pos hp] at h
    rw [← follow_stay (List.cons_ne_nil _ _), List.append_cons]
    exact follow_onward (List.cons_ne_nil _ _) h
  · rw [if_neg hp, List.append_nil] at h
    exact follow_onward (List.cons_ne_nil _ _) h

/-- One step down finds what is there, where no link is to be followed. -/
theorem follow_down {name : Name}
    (hlink : followLast = false ∨ ∀ target, t.get? (name :: place) ≠ some (.link target)) :
    follow t followLast links place [.down name] = .ok
      (match t.get? (name :: place) with
      | some node => .present (name :: place) node links
      | none => .absent place name) := by
  obtain ⟨onLink, hf⟩ := follow_unfold t followLast links
  rw [hf, takeSteps]
  cases hn : t.get? (name :: place) with
  | none => rfl
  | some node =>
    cases node with
    | file f => rfl
    | link target => exact if_pos ⟨rfl, hlink.resolve_right fun hno => hno target hn⟩
    | directory => simp only [takeSteps, hn]

end Tree

namespace Host

variable {h : Host} {t : Tree} {followLast : Bool} {p : Path} {place : Location} {spare : Nat}

theorem spellingError?_of_resolve {found : Found} (hr : h.resolve t followLast p = .ok found) :
    p.spellingError? = none := by
  unfold resolve at hr
  split at hr
  · cases hr
  · next hs => exact hs

theorem bytes_ne_nil_of_resolve {found : Found} (hr : h.resolve t followLast p = .ok found) :
    p.bytes ≠ [] := by
  intro hp
  have hs := spellingError?_of_resolve hr
  simp [Path.spellingError?, hp] at hs

/-- From a path that leads to a directory, the path of an entry goes on as from the directory. -/
theorem resolve_join (hr : h.resolve t true p = .ok (.present place .directory spare)) (name : Name)
    (hs : (p.join name.bytes).spellingError? = none) :
    h.resolve t followLast (p.join name.bytes) =
      t.follow followLast spare place [.down name] := by
  have hne := bytes_ne_nil_of_resolve hr
  have hstart : (p.join name.bytes).start h.cwd = p.start h.cwd := by
    obtain ⟨b, bytes, hb⟩ := List.exists_cons_of_ne_nil hne
    simp [Path.start, Path.isAbsolute, Path.join_of_ne_nil hne, hb]
  unfold resolve at hr ⊢
  rw [spellingError?_of_resolve hr] at hr
  rw [hs]
  simp only at hr ⊢
  rw [hstart]
  exact Tree.follow_join name hr

end Host

end MarkerSweep
