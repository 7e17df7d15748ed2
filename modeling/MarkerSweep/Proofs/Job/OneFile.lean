import MarkerSweep.Proofs.Job.Sweeps
import MarkerSweep.Proofs.Sweep.Removed

/-!
# One file, on disk

`process_effect` puts the layers of one file together: what is read, what a sweep takes out of it,
and what is written. The outcome says what has happened to the file, and how many spans of its
bytes are gone.
-/

namespace MarkerSweep

open Text

/-- `t'` is `t` without the tokens of `cut` in the file that `p` leads to. -/
structure Host.TakesOut (h : Host) (t : Tree) (p : Path) (cut : Cut) (place : Location)
    (old new : File) (t' : Tree) : Prop where
  leads : h.look t true p = .ok (place, .file old)
  data_eq : new.data = Span.erase cut.spans old.data
  decode_eq : Utf8.decode new.data = .ok cut.kept
  mode_eq : new.mode = old.mode
  withFile : t.WithFile place new t'

namespace Host

variable {h : Host} {m : Marker} {t : Tree} {p : Path} {data : Bytes} {text : List Char}

theorem process_of_unread {e : SystemError} (hread : h.readFile t p = .error e) (m : Marker)
    (dryRun : Bool) : h.process m dryRun t p = (.failed (FileError.io p e).message, t) := by
  apply process_of_error
  simp only [readText, hread]

theorem process_of_undecoded {fault : Utf8.Fault} (hread : h.readFile t p = .ok data)
    (hd : Utf8.decode data = .error fault) (m : Marker) (dryRun : Bool) :
    h.process m dryRun t p = (.failed (FileError.decode p fault).message, t) := by
  apply process_of_error
  simp only [readText, hread, hd]

theorem process_takesOut (hi : h.Inhabits t)
    (hfree : ∀ target, h.writeTarget t p = .ok target →
      ∀ at_, h.look t false (h.tempPath target) ≠ .ok at_)
    {cut : Cut} (hread : h.readText t p = .ok cut.source)
    (hsweep : m.sweep cut.source = ⟨cut.kept, cut.count⟩) (hne : cut.kept ≠ cut.source) :
    (∃ error, h.process m false t p = (.failed error, t)) ∨
      ∃ place old new t', h.process m false t p = (.processed cut.count, t') ∧
        h.TakesOut t p cut place old new t' := by
  have hkept : m.strip cut.source = cut.kept := congrArg Swept.text hsweep
  -- What `readText` finds is the text that `Sweeps` speaks of.
  have htext {place : Location} {f : File} {text : List Char}
      (hl : h.look t true p = .ok (place, .file f)) (hd : Utf8.decode f.data = .ok text) :
      text = cut.source :=
    Except.ok.inj ((readText_of_look hl hd).symm.trans hread)
  have hsweeps := process_sweeps_of_nothing hi hfree m
  cases hprocess : h.process m false t p with
  | mk outcome t' =>
    rw [hprocess] at hsweeps
    cases hsweeps with
    | failed error => exact .inl ⟨error, rfl⟩
    | unchanged hl hd hs =>
      obtain rfl := htext hl hd
      exact absurd (hkept.symm.trans hs) hne
    | @processed place old new text _ hl hd _ hmode hdata hw =>
      obtain rfl := htext hl hd
      rw [hkept] at hdata
      refine .inr ⟨place, old, new, t', by rw [hsweep], hl, ?_, ?_, hmode, hw⟩
      · rw [hdata, ← Utf8.encode_of_decode hd, cut.erase_spans]
      · rw [hdata, Utf8.decode_encode]

/-- What processing one file comes to. A file that cannot be read, or is no text, or has no token
in it, stays as it is, and so does every file in a dry run. Any other file loses the bytes of its
tokens, of which there is at least one, and nothing else changes; or the outcome is a failure, and
nothing changes at all. -/
theorem process_effect {marker : String} {m : Marker} (hm : Marker.ofText? marker = .ok m)
    (hi : h.Inhabits t)
    (hfree : ∀ target, h.writeTarget t p = .ok target →
      ∀ at_, h.look t false (h.tempPath target) ≠ .ok at_) (dryRun : Bool) :
    (∀ e, h.readFile t p = .error e →
      h.process m dryRun t p = (.failed (FileError.io p e).message, t)) ∧
    (∀ data fault, h.readFile t p = .ok data → Utf8.decode data = .error fault →
      h.process m dryRun t p = (.failed (FileError.decode p fault).message, t)) ∧
    ∀ data text, h.readFile t p = .ok data → Utf8.decode data = .ok text →
      ((∀ i, ¬ Opens marker.toList (text.drop i)) →
        h.process m dryRun t p = (.unchanged, t)) ∧
      ∀ i, Opens marker.toList (text.drop i) →
        ∃ cut : Cut, cut.Proper marker.toList ∧ cut.source = text ∧
          cut.spans.length = cut.count ∧ 1 ≤ cut.count ∧
          (dryRun = true → h.process m dryRun t p = (.processed cut.count, t)) ∧
          (dryRun = false →
            (∃ error, h.process m dryRun t p = (.failed error, t)) ∨
              ∃ place old new t', h.process m dryRun t p = (.processed cut.count, t') ∧
                h.TakesOut t p cut place old new t') := by
  obtain rfl := Marker.text_of_ofText? hm
  refine ⟨fun e hread => process_of_unread hread m dryRun,
    fun data fault hread hd => process_of_undecoded hread hd m dryRun, ?_⟩
  intro data text hread hd
  have hread : h.readText t p = .ok text := by simp only [readText, hread, hd]
  constructor
  · intro hno
    have hsweep : m.sweep text = ⟨text, 0⟩ := sweep_eq_self hno
    exact process_of_strip_eq hread (congrArg Swept.text hsweep) dryRun
  · intro i ho
    obtain ⟨cut, hp, rfl, hsweep⟩ := exists_proper_cut m.text.toList text
    have hsweep : m.sweep cut.source = ⟨cut.kept, cut.count⟩ := hsweep
    have hne : cut.kept ≠ cut.source := hp.kept_ne_source ho
    refine ⟨cut, hp, rfl, cut.length_spansFrom 0, hp.count_pos ho, ?_, ?_⟩
    · rintro rfl
      have hs : m.strip cut.source ≠ cut.source := by
        show (m.sweep cut.source).text ≠ _
        rwa [hsweep]
      rw [process_dry_of_strip_ne hread hs, hsweep]
    · rintro rfl
      exact process_takesOut hi hfree hread hsweep hne

/-- A marker with a space in it, and a file behind a link. The token has a letter of two bytes. -/
theorem process_drops_span_through_link :
    let h : Host := ⟨[], 7, 0o022⟩
    let a : Name := ⟨[0x61], by decide⟩
    let b : Name := ⟨[0x62], by decide⟩
    let data := Utf8.ofString "é a bé c"
    let t := (Tree.empty.put [] a (.file ⟨0, 0o640, data⟩)).put [] b (.link ⟨a.bytes⟩)
    let p : Path := ⟨b.bytes⟩
    let m : Marker := ⟨"a b", by decide, by decide⟩
    Marker.ofText? "a b" = .ok m ∧ h.Inhabits t ∧
      (∀ target, h.writeTarget t p = .ok target →
        ∀ at_, h.look t false (h.tempPath target) ≠ .ok at_) ∧
      h.readFile t p = .ok data ∧ Utf8.decode data = .ok "é a bé c".toList ∧
      Opens "a b".toList ("é a bé c".toList.drop 1) ∧
      ∃ (cut : Cut) (place : Location) (old new : File) (t' : Tree),
        cut.source = "é a bé c".toList ∧ cut.spans.length = 1 ∧
        h.process m false t p = (.processed 1, t') ∧ h.TakesOut t p cut place old new t' ∧
        t'.get? [a] = some (.file ⟨1, 0o640, Utf8.ofString "é c"⟩) ∧
        t'.get? [b] = some (.link ⟨a.bytes⟩) := by
  intro h a b data t p m
  have hm : Marker.ofText? "a b" = .ok m := Marker.ofText?_text m
  have hi : h.Inhabits t := by decide
  have htarget : h.writeTarget t p = .ok ⟨[0x2F, 0x61]⟩ := by decide +kernel
  have hnone : h.look t false (h.tempPath ⟨[0x2F, 0x61]⟩) = .error .noEntry := by decide +kernel
  have hfree : ∀ target, h.writeTarget t p = .ok target →
      ∀ at_, h.look t false (h.tempPath target) ≠ .ok at_ := by
    intro target ht at_ hl
    obtain rfl := Except.ok.inj (htarget.symm.trans ht)
    cases hnone.symm.trans hl
  have hread : h.readFile t p = .ok data := by decide +kernel
  have hd : Utf8.decode data = .ok "é a bé c".toList := Utf8.decode_encode _
  have ho : Opens "a b".toList ("é a bé c".toList.drop 1) := ⟨'é', [' ', 'c'], by decide, by decide⟩
  have hdone : (h.process m false t p).1 = .processed 1 := by decide +kernel
  have ha : (h.process m false t p).2.get? [a] =
      some (.file ⟨1, 0o640, Utf8.ofString "é c"⟩) := by decide +kernel
  have hb : (h.process m false t p).2.get? [b] = some (.link ⟨a.bytes⟩) := by decide +kernel
  refine ⟨hm, hi, hfree, hread, hd, ho, ?_⟩
  obtain ⟨cut, -, hsource, hspans, -, -, hreal⟩ :=
    ((process_effect hm hi hfree false).2.2 data _ hread hd).2 1 ho
  rcases hreal rfl with ⟨error, he⟩ | ⟨place, old, new, t', hprocess, htakes⟩
  · rw [he] at hdone
    cases hdone
  · rw [hprocess] at hdone ha hb
    have hcount : cut.count = 1 := Outcome.processed.inj hdone
    rw [hcount] at hspans hprocess
    exact ⟨cut, place, old, new, t', hsource, hspans, hprocess, htakes, ha, hb⟩

end Host

end MarkerSweep
