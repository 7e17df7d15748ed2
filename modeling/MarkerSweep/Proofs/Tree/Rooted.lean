import MarkerSweep.Proofs.Tree.Leads

/-!
# Rooted trees

In a rooted tree every entry is in a directory, so a way never leaves the directories before its
end. `Leads.carried` shows that ways are the same in two trees that have the same directories and
links, whatever files they have.
-/

namespace MarkerSweep

namespace Tree

/-- Every entry is in a directory. -/
def Rooted (t : Tree) : Prop :=
  ∀ name dir, t.get? (name :: dir) ≠ none → t.get? dir = some .directory

/-- Every directory and every link of `t` is in `t'` too. -/
def Carries (t t' : Tree) : Prop :=
  ∀ l node, t.get? l = some node → (∀ f, node ≠ .file f) → t'.get? l = some node

variable {t t' : Tree} {followLast : Bool} {links : Nat} {here : Location}
  {steps second : List Step} {found : Found}

/-- What holds of the root and of the place of every entry holds wherever there is something. -/
theorem forall_place_iff (t : Tree) {P : Location → Prop} (hroot : P []) :
    (∀ e ∈ t.entries, P e.place) ↔ ∀ name dir, t.get? (name :: dir) ≠ none → P (name :: dir) := by
  constructor
  · intro hall name dir hn
    obtain ⟨e, he, hp⟩ := List.mem_map.mp ((mem_map_place_iff t name dir).mpr hn)
    have hplace := hall e he
    rwa [hp] at hplace
  · intro hall e he
    cases hp : e.place with
    | nil => exact hroot
    | cons name dir =>
      refine hall name dir ((mem_map_place_iff t name dir).mp ?_)
      rw [← hp]
      exact List.mem_map_of_mem he

instance (t : Tree) : Decidable t.Rooted :=
  decidable_of_iff (∀ e ∈ t.entries, t.get? e.place.tail = some .directory)
    (t.forall_place_iff (P := fun l => t.get? l.tail = some .directory) rfl)

theorem Rooted.get?_tail (hr : t.Rooted) {l : Location} (h : t.get? l ≠ none) :
    t.get? l.tail = some .directory := by
  cases l with
  | nil => rfl
  | cons name dir => exact hr name dir h

theorem Rooted.up (hr : t.Rooted) (hd : t.get? here = some .directory) :
    t.get? here.tail = some .directory :=
  hr.get?_tail (by simp [hd])

theorem get?_start (p : Path) (hd : t.get? here = some .directory) :
    t.get? (p.start here) = some .directory := by
  unfold Path.start
  split
  · rfl
  · exact hd

theorem Leads.get?_tail (hr : t.Rooted) (hd : t.get? here = some .directory)
    (h : Leads t followLast links here steps found) :
    t.get? found.place.tail = some .directory := by
  induction h with
  | arrive _ => exact hr.up hd
  | absent _ => exact hd
  | file _ => exact hd
  | link _ _ => exact hd
  | stay _ ih => exact ih hd
  | up _ ih => exact ih (hr.up hd)
  | enter hn _ ih => exact ih hn
  | through _ _ _ ih => exact ih (get?_start _ hd)

theorem Leads.node?_ne_link (hr : t.Rooted) (hd : t.get? here = some .directory)
    (h : Leads t true links here steps found) (target : Path) :
    found.node? ≠ some (.link target) := by
  induction h with
  | arrive hn =>
    rw [hd] at hn
    obtain rfl := Option.some.inj hn
    simp [Found.node?]
  | absent _ => simp [Found.node?]
  | file _ => simp [Found.node?]
  | link _ hlast => cases hlast
  | stay _ ih => exact ih hd
  | up _ ih => exact ih (hr.up hd)
  | enter hn _ ih => exact ih hn
  | through _ _ _ ih => exact ih (get?_start _ hd)

/-- A way that does not end in a name leads to a directory. -/
theorem Leads.directory_of_last (hr : t.Rooted) (hd : t.get? here = some .directory)
    (hs : ∀ name, steps.getLast? ≠ some (.down name))
    (h : Leads t followLast links here steps found) :
    ∃ place spare, found = .present place .directory spare := by
  have tail {step : Step} {rest : List Step}
      (hs : ∀ name, (step :: rest).getLast? ≠ some (.down name)) :
      ∀ name, rest.getLast? ≠ some (.down name) := by
    intro name hlast
    apply hs name
    rw [List.getLast?_cons, hlast]
    rfl
  induction h with
  | arrive hn =>
    rw [hd] at hn
    obtain rfl := Option.some.inj hn
    exact ⟨_, _, rfl⟩
  | absent _ => exact absurd rfl (hs _)
  | file _ => exact absurd rfl (hs _)
  | link _ _ => exact absurd rfl (hs _)
  | stay _ ih => exact ih hd (tail hs)
  | up _ ih => exact ih (hr.up hd) (tail hs)
  | enter hn _ ih => exact ih hn (tail hs)
  | @through _ _ _ target rest _ _ _ _ ih =>
    refine ih (get?_start _ hd) ?_
    cases rest with
    | nil => exact absurd rfl (hs _)
    | cons step rest =>
      intro name hlast
      rw [List.getLast?_append, List.getLast?_cons, Option.some_or] at hlast
      exact tail hs name (List.getLast?_cons.trans hlast)

/-- The last step to a file is down to its name. -/
theorem Leads.last_of_file (hr : t.Rooted) (hd : t.get? here = some .directory) {place : Location}
    {f : File} {spare : Nat} (h : Leads t false links here steps (.present place (.file f) spare)) :
    ∃ first name dir, steps = first ++ [.down name] ∧ place = name :: dir := by
  rcases List.eq_nil_or_concat steps with rfl | ⟨first, step, rfl⟩
  · obtain ⟨_, _, hfound⟩ := h.directory_of_last hr hd (by simp)
    cases hfound
  · cases step with
    | down name =>
      rw [List.concat_eq_append] at h ⊢
      obtain ⟨name', dir, hstep, hplace⟩ := h.place_of_last (by simp) (by simp)
      obtain rfl := Step.down.inj hstep
      exact ⟨first, name, dir, rfl, hplace⟩
    | stay | up | tooLong =>
      obtain ⟨_, _, hfound⟩ := h.directory_of_last hr hd (by simp)
      cases hfound

/-- The names of a directory, from the root down, lead to it. -/
theorem Leads.down (hr : t.Rooted) {l : Location} (hd : t.get? l = some .directory)
    (h : Leads t followLast links l second found) :
    Leads t followLast links [] (l.reverse.map Step.down ++ second) found := by
  induction l generalizing second with
  | nil => exact h
  | cons name dir ih =>
    rw [List.reverse_cons, List.map_append, List.append_assoc]
    exact ih (hr.up hd) (.enter hd h)

/-- A way through `t` is a way through a tree that has the directories and links of `t`, if its end
is not a new directory or link there. -/
theorem Leads.carried (hr : t.Rooted) (hd : t.get? here = some .directory) (hc : t.Carries t')
    (h : Leads t followLast links here steps found)
    (hend : ∀ node, t'.get? found.place = some node →
      (∃ f, node = .file f) ∨ t.get? found.place = some node) :
    ∃ found', Leads t' followLast links here steps found' ∧ found'.place = found.place := by
  induction h with
  | arrive hn =>
    rw [hd] at hn
    obtain rfl := Option.some.inj hn
    exact ⟨_, .arrive (hc _ _ hd (by simp)), rfl⟩
  -- At its end a way may find a file where there was none, and the other way round.
  | @absent spare here name hn =>
    cases hn' : t'.get? (name :: here) with
    | none => exact ⟨_, .absent hn', rfl⟩
    | some node =>
      rcases hend node hn' with ⟨f, rfl⟩ | hsame
      · exact ⟨_, .file hn', rfl⟩
      · cases hn.symm.trans hsame
  | @file spare here name f hf =>
    cases hn' : t'.get? (name :: here) with
    | none => exact ⟨_, .absent hn', rfl⟩
    | some node =>
      rcases hend node hn' with ⟨f', rfl⟩ | hsame
      · exact ⟨_, .file hn', rfl⟩
      · obtain rfl := Option.some.inj (hf.symm.trans hsame)
        exact ⟨_, .file hn', rfl⟩
  | link hl hlast => exact ⟨_, .link (hc _ _ hl (by simp)) hlast, rfl⟩
  | stay _ ih =>
    obtain ⟨found', h', hp⟩ := ih hd hend
    exact ⟨found', .stay h', hp⟩
  | up _ ih =>
    obtain ⟨found', h', hp⟩ := ih (hr.up hd) hend
    exact ⟨found', .up h', hp⟩
  | enter hn _ ih =>
    obtain ⟨found', h', hp⟩ := ih hn hend
    exact ⟨found', .enter (hc _ _ hn (by simp)) h', hp⟩
  | through hl hgo _ ih =>
    obtain ⟨found', h', hp⟩ := ih (get?_start _ hd) hend
    exact ⟨found', .through (hc _ _ hl (by simp)) hgo h', hp⟩

end Tree

end MarkerSweep
