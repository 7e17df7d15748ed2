import MarkerSweep.Storage

/-!
# Parts of paths

How the parts of a path come out when a name is joined to it, when the name it ends in is replaced,
and when it is the path of a location. `exists_steps_tempPath` says that the path of a temporary
file ends in the file's name, `steps_path` that the path of a location goes down its names.
-/

namespace MarkerSweep

theorem Name.bytes_spec (name : Name) :
    name.bytes ≠ [] ∧ name.bytes ≠ [Path.dot] ∧ name.bytes ≠ [Path.dot, Path.dot] ∧
      Path.slash ∉ name.bytes := by
  have h := name.isName_bytes
  simp only [isName, Bool.and_eq_true, bne_iff_ne, ne_eq, Bool.not_eq_true', List.contains_eq_mem,
    decide_eq_false_iff_not] at h
  obtain ⟨⟨⟨⟨⟨hnil, hdot⟩, hdots⟩, hslash⟩, -⟩, -⟩ := h
  exact ⟨hnil, hdot, hdots, hslash⟩

theorem Name.bytes_ne_nil (name : Name) : name.bytes ≠ [] :=
  name.bytes_spec.1

theorem Name.slash_not_mem (name : Name) : Path.slash ∉ name.bytes :=
  name.bytes_spec.2.2.2

namespace Path

theorem splitSlash_append (a b : Bytes) :
    splitSlash (a ++ slash :: b) = splitSlash a ++ splitSlash b := by
  induction a with
  | nil => simp [splitSlash]
  | cons c a ih =>
    rw [List.cons_append, splitSlash, splitSlash, ih]
    split
    · rfl
    · cases hp : splitSlash a with
      | nil => exact absurd hp (splitSlash_ne_nil a)
      | cons part parts => rfl

theorem splitSlash_of_not_mem {bytes : Bytes} (h : slash ∉ bytes) : splitSlash bytes = [bytes] := by
  induction bytes with
  | nil => rfl
  | cons c bytes ih =>
    rw [List.mem_cons, not_or] at h
    rw [splitSlash, if_neg (Ne.symm h.1), ih h.2]

theorem slash_not_mem_of_mem_splitSlash {bytes part : Bytes} (h : part ∈ splitSlash bytes) :
    slash ∉ part := by
  induction bytes generalizing part with
  | nil => simp_all [splitSlash]
  | cons c bytes ih =>
    rw [splitSlash] at h
    split at h
    · rcases List.mem_cons.mp h with rfl | h
      · simp
      · exact ih h
    · next hc =>
      cases hp : splitSlash bytes with
      | nil => exact absurd hp (splitSlash_ne_nil bytes)
      | cons first parts =>
        rw [hp] at h ih
        rcases List.mem_cons.mp h with rfl | h
        · have := ih List.mem_cons_self
          simp [this, Ne.symm hc]
        · exact ih (List.mem_cons_of_mem _ h)

theorem joinSlash_cons (part next : Bytes) (parts : List Bytes) :
    joinSlash (part :: next :: parts) = part ++ slash :: joinSlash (next :: parts) := by
  simp [joinSlash, List.intercalate]

/-- Parts without slashes, written with slashes between them, are the parts of what is written. -/
theorem splitSlash_joinSlash {parts : List Bytes} (hne : parts ≠ []) (h : ∀ p ∈ parts, slash ∉ p) :
    splitSlash (joinSlash parts) = parts := by
  induction parts with
  | nil => exact absurd rfl hne
  | cons part parts ih =>
    have hpart := splitSlash_of_not_mem (h part List.mem_cons_self)
    cases parts with
    | nil => simpa [joinSlash, List.intercalate] using hpart
    | cons next parts =>
      have htail : ∀ p ∈ next :: parts, slash ∉ p := fun p hp => h p (List.mem_cons_of_mem _ hp)
      rw [joinSlash_cons, splitSlash_append, hpart, ih (List.cons_ne_nil _ _) htail]
      rfl

/-! ### A name at the end -/

theorem filledParts_of_name {a name : Bytes} (hne : name ≠ []) (h : slash ∉ name) :
    filledParts ⟨a ++ slash :: name⟩ = filledParts ⟨a⟩ ++ [name] := by
  simp [filledParts, parts, splitSlash_append, splitSlash_of_not_mem h, hne]

theorem filledParts_join (p : Path) {name : Bytes} (hne : name ≠ []) (h : slash ∉ name) :
    (p.join name).filledParts = p.filledParts ++ [name] := by
  obtain ⟨bytes⟩ := p
  unfold join
  split
  · next hends =>
    rcases List.eq_nil_or_concat bytes with rfl | ⟨front, last, rfl⟩
    · simp [filledParts, parts, splitSlash_of_not_mem h, splitSlash, hne]
    · obtain rfl : last = slash := by simpa [endsInSlash] using hends
      have hfront : filledParts ⟨front ++ [slash]⟩ = filledParts ⟨front⟩ := by
        simp [filledParts, parts, splitSlash_append, splitSlash]
      have hbytes : front.concat slash ++ name = front ++ slash :: name := by simp
      show filledParts ⟨front.concat slash ++ name⟩ = filledParts ⟨front.concat slash⟩ ++ [name]
      rw [hbytes, filledParts_of_name hne h, List.concat_eq_append, hfront]
  · exact filledParts_of_name hne h

theorem endsInSlash_append {a name : Bytes} (hne : name ≠ []) (h : slash ∉ name) :
    endsInSlash ⟨a ++ name⟩ = false := by
  obtain ⟨front, last, rfl⟩ := List.eq_nil_or_concat name |>.resolve_left hne
  have hlast : slash ≠ last := fun e => h (by simp [e])
  simp [endsInSlash, ← List.append_assoc, Ne.symm hlast]

theorem endsInSlash_join (p : Path) {name : Bytes} (hne : name ≠ []) (h : slash ∉ name) :
    (p.join name).endsInSlash = false := by
  unfold join
  split
  · exact endsInSlash_append hne h
  · rw [List.append_cons]
    exact endsInSlash_append hne h

theorem exists_steps_withFileName (p : Path) {name : Bytes} (hne : name ≠ []) (h : slash ∉ name) :
    ∃ first, (p.withFileName name).steps = first ++ [Step.ofPart name] := by
  have hjoin (q : Path) :
      (q.join name).steps = q.filledParts.map Step.ofPart ++ [Step.ofPart name] := by
    rw [steps, endsInSlash_join q hne h, filledParts_join q hne h]
    simp
  unfold withFileName
  split
  · exact ⟨_, hjoin _⟩
  · exact ⟨_, hjoin _⟩

/-! ### The name of a path -/

theorem mem_parts_of_mem_components {p : Path} {name : Bytes} (h : .normal name ∈ p.components) :
    name ∈ p.parts := by
  have inner {parts : List Bytes} (hm : .normal name ∈ parts.filterMap innerComponent?) :
      name ∈ parts := by
    obtain ⟨part, hpart, hname⟩ := List.mem_filterMap.mp hm
    unfold innerComponent? at hname
    split at hname
    · cases hname
    · split at hname
      · cases hname
      · cases hname
        exact hpart
  unfold components at h
  split at h
  · exact inner (by simpa using h)
  · split at h
    · cases h
    · next first rest hp =>
      rw [hp]
      split at h
      · exact List.mem_cons_of_mem _ (inner (by simpa using h))
      · exact inner h

theorem slash_not_mem_fileName (p : Path) : slash ∉ p.fileName?.getD [] := by
  unfold fileName?
  split
  · next name h =>
    exact slash_not_mem_of_mem_splitSlash (mem_parts_of_mem_components (List.mem_of_getLast? h))
  · simp

theorem exists_last_part (bytes : Bytes) :
    slash ∉ bytes ∨ ∃ front last, bytes = front ++ slash :: last ∧ slash ∉ last := by
  induction bytes with
  | nil => exact .inl (by simp)
  | cons b bytes ih =>
    rcases ih with hno | ⟨front, last, rfl, hlast⟩
    · by_cases hb : b = slash
      · exact .inr ⟨[], bytes, by rw [hb]; rfl, hno⟩
      · exact .inl (by simp [hno, Ne.symm hb])
    · exact .inr ⟨b :: front, last, rfl, hlast⟩

/-- The last part of a path that does not end in a slash is the last one that is not empty. -/
theorem exists_parts_eq_append {p : Path} {first : List Bytes} {last : Bytes}
    (hp : p.filledParts = first ++ [last]) (hs : p.endsInSlash = false) :
    ∃ front, p.parts = front ++ [last] := by
  obtain ⟨bytes⟩ := p
  obtain ⟨front, tail, hparts, hne⟩ :
      ∃ front tail, parts ⟨bytes⟩ = front ++ [tail] ∧ tail ≠ [] := by
    rcases exists_last_part bytes with hno | ⟨front, tail, rfl, htail⟩
    · refine ⟨[], bytes, splitSlash_of_not_mem hno, ?_⟩
      rintro rfl
      simp [filledParts, parts, splitSlash] at hp
    · refine ⟨splitSlash front, tail, ?_, ?_⟩
      · rw [parts, splitSlash_append, splitSlash_of_not_mem htail]
      · rintro rfl
        simp [endsInSlash] at hs
  have hlast : front.filter (· ≠ []) ++ [tail] = first ++ [last] := by
    rw [← hp, filledParts, hparts]
    simp [hne]
  obtain rfl := (List.cons.inj (List.append_inj' hlast rfl).2).1
  exact ⟨front, hparts⟩

theorem fileName?_of_last {p : Path} {first : List Bytes} {name : Name}
    (hp : p.filledParts = first ++ [name.bytes]) (hs : p.endsInSlash = false) :
    p.fileName? = some name.bytes := by
  obtain ⟨front, hparts⟩ := exists_parts_eq_append hp hs
  obtain ⟨hnil, hdot, hdots, -⟩ := name.bytes_spec
  have hinner : innerComponent? name.bytes = some (.normal name.bytes) := by
    simp [innerComponent?, isInert, hnil, hdot, hdots]
  have hlast : p.components.getLast? = some (.normal name.bytes) := by
    have hall (parts : List Bytes) :
        ((parts ++ [name.bytes]).filterMap innerComponent?).getLast? =
          some (.normal name.bytes) := by
      simp [List.filterMap_append, hinner]
    unfold components
    split
    · rw [hparts, List.getLast?_cons, hall]
      rfl
    · rw [hparts]
      cases front with
      | nil =>
        rw [List.nil_append]
        simp only [if_neg hdot]
        exact hall []
      | cons part front =>
        rw [List.cons_append]
        simp only
        split
        · rw [List.getLast?_cons, hall]
          rfl
        · exact hall (part :: front)
  rw [fileName?, hlast]

theorem fileName?_join (p : Path) (name : Name) :
    (p.join name.bytes).fileName? = some name.bytes :=
  fileName?_of_last (filledParts_join p name.bytes_ne_nil name.slash_not_mem)
    (endsInSlash_join p name.bytes_ne_nil name.slash_not_mem)

end Path

/-! ### Names in a tree -/

theorem Name.ofPart_bytes (name : Name) : Step.ofPart name.bytes = .down name := by
  obtain ⟨-, hdot, hdots, -⟩ := name.bytes_spec
  rw [Step.ofPart, if_neg hdot, if_neg hdots, dif_pos name.isName_bytes]

theorem Step.eq_ofPart_of_down {part : Bytes} {name : Name} (h : Step.ofPart part = .down name) :
    name.bytes = part := by
  unfold Step.ofPart at h
  split at h
  · cases h
  · split at h
    · cases h
    · split at h
      · cases h; rfl
      · cases h

namespace Location

theorem filledParts_path (l : Location) : l.path.filledParts = l.reverse.map Name.bytes := by
  have hall : ∀ part ∈ l.reverse.map Name.bytes, Path.slash ∉ part := by
    intro part hp
    obtain ⟨name, -, rfl⟩ := List.mem_map.mp hp
    exact name.slash_not_mem
  cases hparts : l.reverse.map Name.bytes with
  | nil => simp [path, Path.filledParts, Path.parts, hparts, Path.splitSlash, Path.joinSlash]
  | cons first rest =>
    rw [← hparts, Path.filledParts, Path.parts, path, Path.splitSlash, if_pos rfl,
      Path.splitSlash_joinSlash (by simp [hparts]) hall]
    simp [Name.bytes_ne_nil]

theorem endsInSlash_path {name : Name} {dir : Location} :
    (path (name :: dir)).endsInSlash = false := by
  have hjoin : ∃ front, (path (name :: dir)).bytes = front ++ name.bytes := by
    have hlast (parts : List Bytes) (last : Bytes) :
        ∃ front, Path.joinSlash (parts ++ [last]) = front ++ last := by
      induction parts with
      | nil => exact ⟨[], by simp [Path.joinSlash, List.intercalate]⟩
      | cons part parts ih =>
        obtain ⟨front, hfront⟩ := ih
        obtain ⟨next, more, hnext⟩ : ∃ next more, parts ++ [last] = next :: more :=
          List.exists_cons_of_ne_nil (by simp)
        refine ⟨part ++ Path.slash :: front, ?_⟩
        rw [hnext] at hfront
        rw [List.cons_append, hnext, List.append_assoc, List.cons_append, ← hfront,
          Path.joinSlash_cons]
    obtain ⟨front, hfront⟩ := hlast (dir.reverse.map Name.bytes) name.bytes
    refine ⟨Path.slash :: front, ?_⟩
    rw [path, List.reverse_cons, List.map_append, List.map_singleton, hfront]
    rfl
  obtain ⟨front, hfront⟩ := hjoin
  rw [show path (name :: dir) = ⟨front ++ name.bytes⟩ from congrArg Path.mk hfront]
  exact Path.endsInSlash_append name.bytes_ne_nil name.slash_not_mem

end Location

/-! ### Temporary files -/

theorem mem_encodeChar {b : UInt8} {c : Char} (h : b ∈ String.utf8EncodeChar c)
    (hb : b.toNat < 0x80) : b.toNat = c.toNat := by
  have hbyte (n : Nat) : (UInt8.ofNat n).toNat = n % 256 := by simp
  rw [String.utf8EncodeChar] at h
  simp only [Char.toNat_val] at h
  split at h
  · obtain rfl := List.mem_singleton.mp h
    rw [hbyte]
    omega
  -- The bytes of every other character are `0x80` or more.
  split at h
  · simp only [List.mem_cons, List.not_mem_nil, or_false] at h
    rcases h with rfl | rfl <;> rw [hbyte] at hb <;> omega
  split at h
  · simp only [List.mem_cons, List.not_mem_nil, or_false] at h
    rcases h with rfl | rfl | rfl <;> rw [hbyte] at hb <;> omega
  · simp only [List.mem_cons, List.not_mem_nil, or_false] at h
    rcases h with rfl | rfl | rfl | rfl <;> rw [hbyte] at hb <;> omega

theorem slash_not_mem_ofString {s : String} (h : '/' ∉ s.toList) :
    Path.slash ∉ Utf8.ofString s := by
  intro hm
  obtain ⟨c, hc, hb⟩ := List.mem_flatMap.mp hm
  have hnat : Path.slash.toNat = c.toNat := mem_encodeChar hb (by decide)
  have : c = '/' := Char.toNat_inj.mp (hnat.symm.trans (by decide))
  exact h (this ▸ hc)

namespace Host

theorem slash_not_mem_tempSuffix (h : Host) : Path.slash ∉ h.tempSuffix := by
  apply slash_not_mem_ofString
  intro hm
  simp only [String.toList_append, List.mem_append] at hm
  rcases hm with (hm | hm) | hm
  · simp at hm
  · rw [Nat.toString_eq_repr, Nat.toList_repr] at hm
    have := Nat.isDigit_of_mem_toDigits (by decide) (by decide) hm
    simp at this
  · simp at hm

theorem two_lt_length_tempName (h : Host) (name : Bytes) : 2 < (h.tempName name).length := by
  have hsuffix : Utf8.ofString ".tmp" <:+ h.tempSuffix := by
    refine ⟨Utf8.ofString ("." ++ toString h.processId), ?_⟩
    simp [tempSuffix, Utf8.ofString, Utf8.encode]
  have hle := hsuffix.length_le
  have hfour : (Utf8.ofString ".tmp").length = 4 := by decide
  simp only [tempName, List.length_cons, List.length_append]
  omega

/-- A temporary name is longer than the name that it is made from. -/
theorem ne_tempName (h : Host) (name : Bytes) : name ≠ h.tempName name := by
  intro heq
  have hlen := congrArg List.length heq
  simp only [tempName, List.length_cons, List.length_append] at hlen
  omega

theorem tempName_ne_nil (h : Host) (name : Bytes) : h.tempName name ≠ [] :=
  List.cons_ne_nil _ _

theorem slash_not_mem_tempName (h : Host) (p : Path) :
    Path.slash ∉ h.tempName (p.fileName?.getD []) := by
  simp only [tempName, List.mem_cons, List.mem_append, not_or]
  exact ⟨by decide, p.slash_not_mem_fileName, h.slash_not_mem_tempSuffix⟩

/-- The path of a temporary file ends in the file's name. -/
theorem exists_steps_tempPath (h : Host) (target : Path) :
    ∃ first, (h.tempPath target).steps =
      first ++ [Step.ofPart (h.tempName (target.fileName?.getD []))] :=
  target.exists_steps_withFileName (h.tempName_ne_nil _) (h.slash_not_mem_tempName target)

theorem ofPart_tempName (h : Host) (name : Bytes) :
    Step.ofPart (h.tempName name) ≠ .stay ∧ Step.ofPart (h.tempName name) ≠ .up := by
  have hlen := h.two_lt_length_tempName name
  have hdot : h.tempName name ≠ [Path.dot] := fun e => by simp [e] at hlen
  have hdots : h.tempName name ≠ [Path.dot, Path.dot] := fun e => by simp [e] at hlen
  rw [Step.ofPart, if_neg hdot, if_neg hdots]
  split
  · exact ⟨by simp, by simp⟩
  · exact ⟨by simp, by simp⟩

end Host

end MarkerSweep
