import MarkerSweep.Tree.Resolve

/-!
# Ways through a tree

`Leads` is `Tree.follow` as a relation: one rule for each kind of step. `follow_eq_ok_iff` shows
that the two agree, and the rest of the module is what a way says about the tree that it goes
through.
-/

namespace MarkerSweep

/-- Where something was found, or where it could be made. -/
def Found.place : Found → Location
  | .present place _ _ => place
  | .absent dir name => name :: dir

def Found.node? : Found → Option Node
  | .present _ node _ => some node
  | .absent _ _ => none

namespace Tree

/-- From the directory `here`, with so many links to spare, steps lead to `found`. -/
inductive Leads (t : Tree) (followLast : Bool) : Nat → Location → List Step → Found → Prop where
  | arrive {spare : Nat} {here : Location} {node : Node} (hn : t.get? here = some node) :
      Leads t followLast spare here [] (.present here node spare)
  | stay {spare : Nat} {here : Location} {rest : List Step} {found : Found}
      (h : Leads t followLast spare here rest found) :
      Leads t followLast spare here (.stay :: rest) found
  | up {spare : Nat} {here : Location} {rest : List Step} {found : Found}
      (h : Leads t followLast spare here.tail rest found) :
      Leads t followLast spare here (.up :: rest) found
  | enter {spare : Nat} {here : Location} {name : Name} {rest : List Step} {found : Found}
      (hd : t.get? (name :: here) = some .directory)
      (h : Leads t followLast spare (name :: here) rest found) :
      Leads t followLast spare here (.down name :: rest) found
  | absent {spare : Nat} {here : Location} {name : Name} (hn : t.get? (name :: here) = none) :
      Leads t followLast spare here [.down name] (.absent here name)
  | file {spare : Nat} {here : Location} {name : Name} {f : File}
      (hf : t.get? (name :: here) = some (.file f)) :
      Leads t followLast spare here [.down name] (.present (name :: here) (.file f) spare)
  | link {spare : Nat} {here : Location} {name : Name} {target : Path}
      (hl : t.get? (name :: here) = some (.link target)) (hlast : followLast = false) :
      Leads t followLast spare here [.down name] (.present (name :: here) (.link target) spare)
  | through {spare : Nat} {here : Location} {name : Name} {target : Path} {rest : List Step}
      {found : Found} (hl : t.get? (name :: here) = some (.link target))
      (hgo : ¬ (rest = [] ∧ followLast = false))
      (h : Leads t followLast spare (target.start here) (target.steps ++ rest) found) :
      Leads t followLast (spare + 1) here (.down name :: rest) found

variable {t t' : Tree} {followLast : Bool} {links left : Nat} {here place : Location}
  {steps first second : List Step} {found : Found}

/-! ### The relation and the function -/

theorem leads_of_takeSteps {onLink : Location → List Step → Except SystemError Found}
    (hlink : ∀ here name target rest found, t.get? (name :: here) = some (.link target) →
      ¬ (rest = [] ∧ followLast = false) →
      onLink (target.start here) (target.steps ++ rest) = .ok found →
      Leads t followLast links here (.down name :: rest) found)
    (h : takeSteps t followLast links onLink here steps = .ok found) :
    Leads t followLast links here steps found := by
  induction steps generalizing here with
  | nil =>
    simp only [takeSteps] at h
    split at h
    · next hn => cases h; exact .arrive hn
    · cases h
  | cons step rest ih =>
    cases step with
    | stay => exact .stay (ih h)
    | up => exact .up (ih h)
    | tooLong => cases h
    | down name =>
      simp only [takeSteps] at h
      split at h
      · next hn =>
        split at h
        · next hrest => cases h; subst hrest; exact .absent hn
        · cases h
      · next hd => exact .enter hd (ih h)
      · next hf =>
        split at h
        · next hrest => cases h; subst hrest; exact .file hf
        · cases h
      · next hl =>
        split at h
        · next hlast => cases h; obtain ⟨rfl, hlast⟩ := hlast; exact .link hl hlast
        · next hgo => exact hlink _ _ _ _ _ hl hgo h

theorem follow_succ (t : Tree) (followLast : Bool) (links : Nat) :
    follow t followLast (links + 1) =
      takeSteps t followLast (links + 1) (follow t followLast links) := rfl

theorem follow_unfold (t : Tree) (followLast : Bool) (links : Nat) :
    ∃ onLink, follow t followLast links = takeSteps t followLast links onLink := by
  cases links with
  | zero => exact ⟨_, rfl⟩
  | succ links => exact ⟨_, rfl⟩

theorem follow_of_leads (h : Leads t followLast links here steps found) :
    follow t followLast links here steps = .ok found := by
  induction h with
  | @arrive spare here node hn =>
    obtain ⟨onLink, hf⟩ := follow_unfold t followLast spare
    rw [hf, takeSteps, hn]
  | @stay spare here rest found h ih =>
    obtain ⟨onLink, hf⟩ := follow_unfold t followLast spare
    rw [hf] at ih ⊢
    exact ih
  | @up spare here rest found h ih =>
    obtain ⟨onLink, hf⟩ := follow_unfold t followLast spare
    rw [hf] at ih ⊢
    exact ih
  | @enter spare here name rest found hd h ih =>
    obtain ⟨onLink, hf⟩ := follow_unfold t followLast spare
    rw [hf] at ih ⊢
    rw [takeSteps, hd]
    exact ih
  | @absent spare here name hn =>
    obtain ⟨onLink, hf⟩ := follow_unfold t followLast spare
    rw [hf, takeSteps, hn]
    rfl
  | @file spare here name f hf =>
    obtain ⟨onLink, hg⟩ := follow_unfold t followLast spare
    rw [hg, takeSteps, hf]
    rfl
  | @link spare here name target hl hlast =>
    obtain ⟨onLink, hf⟩ := follow_unfold t followLast spare
    rw [hf, takeSteps, hl]
    exact if_pos ⟨rfl, hlast⟩
  | @through spare here name target rest found hl hgo h ih =>
    rw [follow_succ, takeSteps, hl]
    exact (if_neg hgo).trans ih

theorem leads_of_follow (h : follow t followLast links here steps = .ok found) :
    Leads t followLast links here steps found := by
  induction links generalizing here steps found with
  | zero => exact leads_of_takeSteps (fun _ _ _ _ _ _ _ h => by cases h) h
  | succ links ih => exact leads_of_takeSteps (fun _ _ _ _ _ hl hgo h => .through hl hgo (ih h)) h

theorem follow_eq_ok_iff :
    follow t followLast links here steps = .ok found ↔
      Leads t followLast links here steps found :=
  ⟨leads_of_follow, follow_of_leads⟩

theorem Leads.unique {found' : Found} (h : Leads t followLast links here steps found)
    (h' : Leads t followLast links here steps found') : found = found' :=
  Except.ok.inj ((follow_of_leads h).symm.trans (follow_of_leads h'))

/-! ### What a way says about its tree -/

theorem Leads.get?_place (h : Leads t followLast links here steps found) :
    t.get? found.place = found.node? := by
  induction h with
  | arrive hn => exact hn
  | absent hn => exact hn
  | file hf => exact hf
  | link hl _ => exact hl
  | stay _ ih => exact ih
  | up _ ih => exact ih
  | enter _ _ ih => exact ih
  | through _ _ _ ih => exact ih

theorem exists_leads_name {dir : Location} {name : Name}
    (hlink : followLast = false ∨ ∀ target, t.get? (name :: dir) ≠ some (.link target)) :
    ∃ found, Leads t followLast links dir [.down name] found ∧ found.place = name :: dir := by
  cases hn : t.get? (name :: dir) with
  | none => exact ⟨_, .absent hn, rfl⟩
  | some node =>
    cases node with
    | file f => exact ⟨_, .file hn, rfl⟩
    | directory => exact ⟨_, .enter hn (.arrive hn), rfl⟩
    | link target =>
      refine ⟨_, .link hn (hlink.resolve_right fun hno => hno target hn), rfl⟩

/-- Where a link at the end is not followed, a way that ends in a name leads to that name. -/
theorem Leads.place_of_last {step : Step} (hs : step ≠ .stay) (hu : step ≠ .up)
    (h : Leads t false links here (first ++ [step]) found) :
    ∃ name dir, step = .down name ∧ found.place = name :: dir := by
  generalize hsteps : first ++ [step] = steps at h
  induction h generalizing first with
  | arrive _ => simp at hsteps
  | stay _ ih =>
    cases first with
    | nil => exact absurd (List.cons.inj hsteps).1 hs
    | cons _ first => exact ih (List.cons.inj hsteps).2
  | up _ ih =>
    cases first with
    | nil => exact absurd (List.cons.inj hsteps).1 hu
    | cons _ first => exact ih (List.cons.inj hsteps).2
  | @enter _ here name rest _ hd h ih =>
    cases first with
    | nil =>
      obtain ⟨rfl, rfl⟩ := List.cons.inj hsteps
      cases h with
      | arrive _ => exact ⟨name, here, rfl, rfl⟩
    | cons _ first => exact ih (List.cons.inj hsteps).2
  | @absent _ here name hn =>
    cases first with
    | nil => exact ⟨name, here, (List.cons.inj hsteps).1, rfl⟩
    | cons _ first => simp at hsteps
  | @file _ here name f hf =>
    cases first with
    | nil => exact ⟨name, here, (List.cons.inj hsteps).1, rfl⟩
    | cons _ first => simp at hsteps
  | @link _ here name target hl _ =>
    cases first with
    | nil => exact ⟨name, here, (List.cons.inj hsteps).1, rfl⟩
    | cons _ first => simp at hsteps
  | @through _ here name target rest _ hl hgo h ih =>
    cases first with
    | nil => exact absurd ⟨(List.cons.inj hsteps).2.symm, rfl⟩ hgo
    | cons _ first =>
      refine @ih (target.steps ++ first) ?_
      rw [List.append_assoc, ← (List.cons.inj hsteps).2]
      rfl

/-- A way that follows a link at its end leads to that link if it does not. -/
theorem Leads.unfollowed (h : Leads t true links here steps found) :
    Leads t false links here steps found ∨ ∃ place target spare,
      Leads t false links here steps (.present place (.link target) spare) := by
  induction h with
  | arrive hn => exact .inl (.arrive hn)
  | absent hn => exact .inl (.absent hn)
  | file hf => exact .inl (.file hf)
  | link _ hlast => cases hlast
  | stay _ ih => exact ih.imp .stay fun ⟨_, _, _, h⟩ => ⟨_, _, _, .stay h⟩
  | up _ ih => exact ih.imp .up fun ⟨_, _, _, h⟩ => ⟨_, _, _, .up h⟩
  | enter hd _ ih => exact ih.imp (.enter hd) fun ⟨_, _, _, h⟩ => ⟨_, _, _, .enter hd h⟩
  | @through _ _ _ _ rest _ hl _ _ ih =>
    cases rest with
    | nil => exact .inr ⟨_, _, _, .link hl rfl⟩
    | cons step rest =>
      have hgo : ¬ (step :: rest = [] ∧ false = false) := by simp
      exact ih.imp (.through hl hgo) fun ⟨_, _, _, h⟩ => ⟨_, _, _, .through hl hgo h⟩

/-- A way that does not end at a link does not change if links are followed at its end. -/
theorem Leads.followed (h : Leads t false links here steps found)
    (hend : ∀ target, found.node? ≠ some (.link target)) :
    Leads t true links here steps found := by
  induction h with
  | arrive hn => exact .arrive hn
  | absent hn => exact .absent hn
  | file hf => exact .file hf
  | link _ _ => exact absurd rfl (hend _)
  | stay _ ih => exact .stay (ih hend)
  | up _ ih => exact .up (ih hend)
  | enter hd _ ih => exact .enter hd (ih hend)
  | through hl _ _ ih => exact .through hl (by simp) (ih hend)

/-- From a directory that a way leads to, another way goes on. -/
theorem Leads.goOn (h : Leads t true links here (first ++ [.stay]) (.present place .directory left))
    (hne : second ≠ []) (h₂ : Leads t followLast left place second found) :
    Leads t followLast links here (first ++ second) found := by
  generalize hsteps : first ++ [Step.stay] = steps at h
  generalize hfound : Found.present place .directory left = end_ at h
  induction h generalizing first with
  | arrive _ => simp at hsteps
  | stay h ih =>
    cases first with
    | nil =>
      obtain rfl := (List.cons.inj hsteps).2
      cases h with
      | arrive _ => cases hfound; exact h₂
    | cons _ first =>
      obtain ⟨rfl, hrest⟩ := List.cons.inj hsteps
      exact .stay (ih hrest hfound)
  | up _ ih =>
    cases first with
    | nil => cases (List.cons.inj hsteps).1
    | cons _ first =>
      obtain ⟨rfl, hrest⟩ := List.cons.inj hsteps
      exact .up (ih hrest hfound)
  | enter hd _ ih =>
    cases first with
    | nil => cases (List.cons.inj hsteps).1
    | cons _ first =>
      obtain ⟨rfl, hrest⟩ := List.cons.inj hsteps
      exact .enter hd (ih hrest hfound)
  | absent _ => cases hfound
  | file _ => cases hfound
  | link _ _ => cases hfound
  | @through _ _ _ target rest _ hl _ _ ih =>
    cases first with
    | nil => cases (List.cons.inj hsteps).1
    | cons _ first =>
      obtain ⟨rfl, hrest⟩ := List.cons.inj hsteps
      refine .through hl (fun h => hne (List.append_eq_nil_iff.mp h.1).2) ?_
      -- The steps of the link come first, so that the stay is still the last one.
      have hlong : (target.steps ++ first) ++ [.stay] = target.steps ++ rest := by
        rw [List.append_assoc]
        exact congrArg _ hrest
      have hon := ih hlong hfound
      rwa [List.append_assoc] at hon

end Tree

end MarkerSweep
