import MarkerSweep.Proofs.Tree.Outline
import MarkerSweep.Proofs.Walk.Listing

/-!
# Surveys of trees with the same outline

What is in the files of a tree makes no difference to which of them a survey finds:
`SameOutline.survey_files_perm`.
-/

namespace MarkerSweep

namespace Tree

variable {t t' : Tree} {h : Host} {p root : Path} {place : Location} {names dirs : List Name}
  {last : Name} {extension : String}

theorem SameOutline.look_directory (ho : t.SameOutline t')
    (hl : h.look t true p = .ok (place, .directory)) :
    h.look t' true p = .ok (place, .directory) :=
  ho.look hl (ho.get?_eq_directory_iff.mpr (Host.get?_of_look hl))

theorem SameOutline.opensNew (ho : t.SameOutline t') (hopens : h.OpensNew t root names) :
    h.OpensNew t' root names := by
  obtain ⟨place, hl, hnew⟩ := hopens
  refine ⟨place, ho.look_directory hl, ?_⟩
  intro l target hlink fewer hfewer hne
  have hback : t.get? l = some (.link target) :=
    ho.symm.carries _ _ (Host.get?_of_look hlink) (by simp)
  rw [ho.finds_eq]
  exact hnew l target (ho.symm.look hlink hback) fewer hfewer hne

theorem SameOutline.matches (ho : t.SameOutline t') (hm : h.Matches t root extension dirs last) :
    h.Matches t' root extension dirs last :=
  { hm with directories := fun names hnames => ho.opensNew (hm.directories names hnames) }

theorem SameOutline.leadsToFile (ho : t.SameOutline t') (hp : h.LeadsToFile t p) :
    h.LeadsToFile t' p := by
  obtain ⟨place, f, hl⟩ := hp
  obtain ⟨f', hf', -⟩ := ho.exists_file (Host.get?_of_look hl)
  exact ⟨place, f', ho.look hl hf'⟩

theorem SameOutline.survey_files_subset (ho : t.SameOutline t') (hi : h.Inhabits t)
    (hp : p ∈ (h.survey t root extension).files) : p ∈ (h.survey t' root extension).files := by
  obtain ⟨dirs, last, hpath, hm, hfile⟩ := (Host.mem_survey_files_iff_matches hi).mp hp
  refine (Host.mem_survey_files_iff_matches (ho.inhabits hi)).mpr
    ⟨dirs, last, hpath, ho.matches hm, ?_⟩
  rcases hfile with hleads | ⟨hlong, dir, f, hl, hf⟩
  · exact .inl (ho.leadsToFile hleads)
  · obtain ⟨f', hf', -⟩ := ho.exists_file hf
    exact .inr ⟨hlong, dir, f', ho.look_directory hl, hf'⟩

/-- A survey finds the same files in trees of the same outline. -/
theorem SameOutline.survey_files_perm (ho : t.SameOutline t') (hi : h.Inhabits t) (root : Path)
    (extension : String) :
    (h.survey t' root extension).files.Perm (h.survey t root extension).files := by
  refine (List.perm_ext_iff_of_nodup (Host.nodup_survey_files h t' root extension)
    (Host.nodup_survey_files h t root extension)).mpr fun p => ?_
  constructor
  · exact ho.symm.survey_files_subset (ho.inhabits hi)
  · exact ho.survey_files_subset hi

end Tree

end MarkerSweep
