import MarkerSweep.Text.Utf8

/-!
# Decoding and encoding undo each other

`decode_encode` says that the bytes of a text decode to the text, and `encode_of_decode` that bytes
which decode to a text are the bytes of that text. So `decode` takes exactly the valid UTF-8, and
each text has one encoding.
-/

namespace MarkerSweep.Utf8

/-! ### First bytes -/

theorem lead_single {b : UInt8} (h : b.toNat < 0x80) : lead b = .single := by
  have h' : b < 0x80 := by simpa [UInt8.lt_iff_toNat_lt] using h
  simp [lead, h']

theorem lead_two {b : UInt8} (hl : 0xC2 ≤ b.toNat) (hh : b.toNat < 0xE0) :
    lead b = .two (b.toNat - 0xC0) := by
  have h1 : ¬ b < 0x80 := by simp only [UInt8.lt_iff_toNat_lt, UInt8.reduceToNat]; omega
  have h2 : ¬ b < 0xC2 := by simp only [UInt8.lt_iff_toNat_lt, UInt8.reduceToNat]; omega
  have h3 : b < 0xE0 := by simp only [UInt8.lt_iff_toNat_lt, UInt8.reduceToNat]; omega
  rw [lead, if_neg h1, if_neg h2, if_pos h3]

theorem lead_three {b : UInt8} (hl : 0xE0 ≤ b.toNat) (hh : b.toNat < 0xF0) :
    lead b = .three (b.toNat - 0xE0) (if b = 0xE0 then 0xA0 else 0x80)
      (if b = 0xED then 0x9F else 0xBF) := by
  have h1 : ¬ b < 0x80 := by simp only [UInt8.lt_iff_toNat_lt, UInt8.reduceToNat]; omega
  have h2 : ¬ b < 0xC2 := by simp only [UInt8.lt_iff_toNat_lt, UInt8.reduceToNat]; omega
  have h3 : ¬ b < 0xE0 := by simp only [UInt8.lt_iff_toNat_lt, UInt8.reduceToNat]; omega
  have h4 : b < 0xF0 := by simp only [UInt8.lt_iff_toNat_lt, UInt8.reduceToNat]; omega
  rw [lead, if_neg h1, if_neg h2, if_neg h3, if_pos h4]

theorem lead_four {b : UInt8} (hl : 0xF0 ≤ b.toNat) (hh : b.toNat < 0xF5) :
    lead b = .four (b.toNat - 0xF0) (if b = 0xF0 then 0x90 else 0x80)
      (if b = 0xF4 then 0x8F else 0xBF) := by
  have h1 : ¬ b < 0x80 := by simp only [UInt8.lt_iff_toNat_lt, UInt8.reduceToNat]; omega
  have h2 : ¬ b < 0xC2 := by simp only [UInt8.lt_iff_toNat_lt, UInt8.reduceToNat]; omega
  have h3 : ¬ b < 0xE0 := by simp only [UInt8.lt_iff_toNat_lt, UInt8.reduceToNat]; omega
  have h4 : ¬ b < 0xF0 := by simp only [UInt8.lt_iff_toNat_lt, UInt8.reduceToNat]; omega
  have h5 : b < 0xF5 := by simp only [UInt8.lt_iff_toNat_lt, UInt8.reduceToNat]; omega
  rw [lead, if_neg h1, if_neg h2, if_neg h3, if_neg h4, if_pos h5]

theorem within_iff (low high b : UInt8) :
    within low high b = true ↔ low.toNat ≤ b.toNat ∧ b.toNat ≤ high.toNat := by
  simp [within, UInt8.le_iff_toNat_le]

/-! ### Characters and their numbers -/

theorem toNat_ofNat_of_valid {n : Nat} (h : n.isValidChar) : (Char.ofNat n).toNat = n := by
  rw [Char.ofNat, dif_pos h]
  rfl

theorem toNat_valid (c : Char) : c.toNat.isValidChar := c.valid

theorem toNat_ofNat_lt {n : Nat} (h : n < 256) : (UInt8.ofNat n).toNat = n := by
  simp [Nat.mod_eq_of_lt h]

theorem isValidChar_iff (n : Nat) :
    n.isValidChar ↔ n < 0xD800 ∨ (0xDFFF < n ∧ n < 0x110000) := Iff.rfl

/-! ### Encoding, then decoding -/

theorem encode_append (a b : List Char) : encode (a ++ b) = encode a ++ encode b :=
  List.flatMap_append

theorem length_ofString (s : String) : (ofString s).length = s.utf8ByteSize := by
  have hbytes : s.toByteArray = (ofString s).toByteArray := String.utf8Encode_toList.symm
  rw [← String.size_toByteArray, hbytes, List.size_toByteArray]

theorem piecesOnto_encodeChar (c : Char) (rest : Bytes) (done : List Piece) :
    piecesOnto done (String.utf8EncodeChar c ++ rest) = piecesOnto (.char c :: done) rest := by
  have hv := (isValidChar_iff _).mp (toNat_valid c)
  have hc : Char.ofNat c.toNat = c := Char.ofNat_toNat c
  rw [String.utf8EncodeChar]
  simp only [Char.toNat_val]
  generalize c.toNat = v at hv hc
  split
  · next h1 =>
    have ha : (UInt8.ofNat v).toNat = v := toNat_ofNat_lt (by omega)
    generalize UInt8.ofNat v = a at ha
    have hl : lead a = .single := lead_single (by omega)
    rw [List.cons_append, piecesOnto]
    simp only [List.nil_append, hl, ha, hc]
  split
  · next h1 h2 =>
    have ha : (UInt8.ofNat (v / 64 % 0x20 + 0xC0)).toNat = v / 64 % 0x20 + 0xC0 :=
      toNat_ofNat_lt (by omega)
    have hb : (UInt8.ofNat (v % 0x40 + 0x80)).toNat = v % 0x40 + 0x80 := toNat_ofNat_lt (by omega)
    generalize UInt8.ofNat (v / 64 % 0x20 + 0xC0) = a at ha
    generalize UInt8.ofNat (v % 0x40 + 0x80) = b at hb
    have hl : lead a = .two (a.toNat - 0xC0) := lead_two (by omega) (by omega)
    have hw : within 0x80 0xBF b = true := by
      rw [within_iff]; simp only [UInt8.reduceToNat]; omega
    have hn : extend (a.toNat - 0xC0) b = v := by unfold extend; omega
    rw [List.cons_append, piecesOnto]
    simp only [List.cons_append, List.nil_append, hl, hw, if_true, hn, hc]
  split
  · next h1 h2 h3 =>
    have ha : (UInt8.ofNat (v / 4096 % 0x10 + 0xE0)).toNat = v / 4096 % 0x10 + 0xE0 :=
      toNat_ofNat_lt (by omega)
    have hb : (UInt8.ofNat (v / 64 % 0x40 + 0x80)).toNat = v / 64 % 0x40 + 0x80 :=
      toNat_ofNat_lt (by omega)
    have hd : (UInt8.ofNat (v % 0x40 + 0x80)).toNat = v % 0x40 + 0x80 := toNat_ofNat_lt (by omega)
    generalize UInt8.ofNat (v / 4096 % 0x10 + 0xE0) = a at ha
    generalize UInt8.ofNat (v / 64 % 0x40 + 0x80) = b at hb
    generalize UInt8.ofNat (v % 0x40 + 0x80) = d at hd
    have hl := lead_three (b := a) (by omega) (by omega)
    have hw : within (if a = 0xE0 then 0xA0 else 0x80) (if a = 0xED then 0x9F else 0xBF) b =
        true := by
      rw [within_iff]
      constructor <;> split <;> next h =>
        simp only [← UInt8.toNat_inj, UInt8.reduceToNat] at h ⊢
        omega
    have hw2 : within 0x80 0xBF d = true := by
      rw [within_iff]; simp only [UInt8.reduceToNat]; omega
    have hn : extend (extend (a.toNat - 0xE0) b) d = v := by unfold extend; omega
    rw [List.cons_append, piecesOnto]
    simp only [List.cons_append, List.nil_append, hl, hw, hw2, if_true, hn, hc]
  · next h1 h2 h3 =>
    have ha : (UInt8.ofNat (v / 262144 % 0x08 + 0xF0)).toNat = v / 262144 % 0x08 + 0xF0 :=
      toNat_ofNat_lt (by omega)
    have hb : (UInt8.ofNat (v / 4096 % 0x40 + 0x80)).toNat = v / 4096 % 0x40 + 0x80 :=
      toNat_ofNat_lt (by omega)
    have hd : (UInt8.ofNat (v / 64 % 0x40 + 0x80)).toNat = v / 64 % 0x40 + 0x80 :=
      toNat_ofNat_lt (by omega)
    have he : (UInt8.ofNat (v % 0x40 + 0x80)).toNat = v % 0x40 + 0x80 := toNat_ofNat_lt (by omega)
    generalize UInt8.ofNat (v / 262144 % 0x08 + 0xF0) = a at ha
    generalize UInt8.ofNat (v / 4096 % 0x40 + 0x80) = b at hb
    generalize UInt8.ofNat (v / 64 % 0x40 + 0x80) = d at hd
    generalize UInt8.ofNat (v % 0x40 + 0x80) = e at he
    have hl := lead_four (b := a) (by omega) (by omega)
    have hw : within (if a = 0xF0 then 0x90 else 0x80) (if a = 0xF4 then 0x8F else 0xBF) b =
        true := by
      rw [within_iff]
      constructor <;> split <;> next h =>
        simp only [← UInt8.toNat_inj, UInt8.reduceToNat] at h ⊢
        omega
    have hw2 : within 0x80 0xBF d = true := by
      rw [within_iff]; simp only [UInt8.reduceToNat]; omega
    have hw3 : within 0x80 0xBF e = true := by
      rw [within_iff]; simp only [UInt8.reduceToNat]; omega
    have hn : extend (extend (extend (a.toNat - 0xF0) b) d) e = v := by unfold extend; omega
    rw [List.cons_append, piecesOnto]
    simp only [List.cons_append, List.nil_append, hl, hw, hw2, hw3, if_true, hn, hc]

theorem piecesOnto_encode (text : List Char) (done : List Piece) :
    piecesOnto done (encode text) = done.reverse ++ text.map Piece.char := by
  induction text generalizing done with
  | nil => simp [encode, piecesOnto]
  | cons c rest ih =>
    have h := piecesOnto_encodeChar c (encode rest) done
    rw [encode, List.flatMap_cons]
    rw [encode] at h
    rw [h, ← encode, ih]
    simp

theorem pieces_encode (text : List Char) : pieces (encode text) = text.map Piece.char := by
  rw [pieces, piecesOnto_encode]; rfl

theorem charactersOnto_map_char (text done : List Char) (index : Nat) :
    charactersOnto done index (text.map Piece.char) = .ok (done.reverse ++ text) := by
  induction text generalizing done index with
  | nil => simp [charactersOnto]
  | cons c rest ih => simp [charactersOnto, ih]

/-- The bytes of a text decode to the text. -/
theorem decode_encode (text : List Char) : decode (encode text) = .ok text := by
  rw [decode, pieces_encode, charactersOnto_map_char]; rfl

/-- The bytes of a text are displayed as the text. -/
theorem lossy_encode (text : List Char) : lossy (encode text) = text := by
  rw [lossy, pieces_encode, List.map_map]
  exact List.map_id'' (fun _ => rfl) text

/-! ### Decoding, then encoding -/

theorem within_tail {b : UInt8} (h : within 0x80 0xBF b = true) :
    0x80 ≤ b.toNat ∧ b.toNat ≤ 0xBF := by
  simpa [within_iff] using h

theorem toNat_ite (b x low high : UInt8) :
    (if b = x then low else high).toNat =
      if b.toNat = x.toNat then low.toNat else high.toNat := by
  simp only [UInt8.toNat_inj]
  split <;> rfl

theorem lead_eq_single {b : UInt8} (h : lead b = .single) : b.toNat < 0x80 := by
  rw [lead] at h
  split at h
  · next h1 => simpa only [UInt8.lt_iff_toNat_lt, UInt8.reduceToNat] using h1
  repeat' split at h
  all_goals cases h

theorem lead_eq_two {b : UInt8} {p : Nat} (h : lead b = .two p) :
    0xC2 ≤ b.toNat ∧ b.toNat < 0xE0 ∧ p = b.toNat - 0xC0 := by
  rw [lead] at h
  split at h
  · cases h
  split at h
  · cases h
  split at h
  · next h1 h2 h3 =>
    simp only [UInt8.lt_iff_toNat_lt, UInt8.reduceToNat] at h1 h2 h3
    injection h with hp
    exact ⟨by omega, h3, hp.symm⟩
  repeat' split at h
  all_goals cases h

theorem lead_eq_three {b low high : UInt8} {p : Nat} (h : lead b = .three p low high) :
    0xE0 ≤ b.toNat ∧ b.toNat < 0xF0 ∧ p = b.toNat - 0xE0 ∧
      low.toNat = (if b.toNat = 0xE0 then 0xA0 else 0x80) ∧
      high.toNat = (if b.toNat = 0xED then 0x9F else 0xBF) := by
  rw [lead] at h
  split at h
  · cases h
  split at h
  · cases h
  split at h
  · cases h
  split at h
  · next h1 h2 h3 h4 =>
    simp only [UInt8.lt_iff_toNat_lt, UInt8.reduceToNat] at h1 h2 h3 h4
    injection h with hp hl hh
    refine ⟨by omega, h4, hp.symm, ?_, ?_⟩
    · rw [← hl, toNat_ite]; rfl
    · rw [← hh, toNat_ite]; rfl
  split at h <;> cases h

theorem lead_eq_four {b low high : UInt8} {p : Nat} (h : lead b = .four p low high) :
    0xF0 ≤ b.toNat ∧ b.toNat < 0xF5 ∧ p = b.toNat - 0xF0 ∧
      low.toNat = (if b.toNat = 0xF0 then 0x90 else 0x80) ∧
      high.toNat = (if b.toNat = 0xF4 then 0x8F else 0xBF) := by
  rw [lead] at h
  split at h
  · cases h
  split at h
  · cases h
  split at h
  · cases h
  split at h
  · cases h
  split at h
  · next h1 h2 h3 h4 h5 =>
    simp only [UInt8.lt_iff_toNat_lt, UInt8.reduceToNat] at h1 h2 h3 h4 h5
    injection h with hp hl hh
    refine ⟨by omega, h5, hp.symm, ?_, ?_⟩
    · rw [← hl, toNat_ite]; rfl
    · rw [← hh, toNat_ite]; rfl
  · cases h

theorem ofNat_eq_of_toNat {b : UInt8} {n : Nat} (h : n = b.toNat) : UInt8.ofNat n = b := by
  rw [h, UInt8.ofNat_toNat]

theorem encodeChar_single {a : UInt8} (h : lead a = .single) :
    String.utf8EncodeChar (Char.ofNat a.toNat) = [a] := by
  have ha := lead_eq_single h
  have hv : a.toNat.isValidChar := (isValidChar_iff _).mpr (by omega)
  rw [String.utf8EncodeChar]
  simp only [Char.toNat_val, toNat_ofNat_of_valid hv]
  rw [if_pos (by omega), UInt8.ofNat_toNat]

theorem encodeChar_two {a b : UInt8} {p : Nat} (h : lead a = .two p)
    (hb : within 0x80 0xBF b = true) :
    String.utf8EncodeChar (Char.ofNat (extend p b)) = [a, b] := by
  obtain ⟨h1, h2, hp⟩ := lead_eq_two h
  rw [hp]
  obtain ⟨h3, h4⟩ := within_tail hb
  generalize hn : extend (a.toNat - 0xC0) b = n
  unfold extend at hn
  have hv : n.isValidChar := (isValidChar_iff _).mpr (by omega)
  rw [String.utf8EncodeChar]
  simp only [Char.toNat_val, toNat_ofNat_of_valid hv]
  rw [if_neg (by omega), if_pos (by omega), ofNat_eq_of_toNat (b := a) (by omega),
    ofNat_eq_of_toNat (b := b) (by omega)]

theorem encodeChar_three {a b c low high : UInt8} {p : Nat} (h : lead a = .three p low high)
    (hb : within low high b = true) (hc : within 0x80 0xBF c = true) :
    String.utf8EncodeChar (Char.ofNat (extend (extend p b) c)) = [a, b, c] := by
  obtain ⟨h1, h2, hp, h3, h4⟩ := lead_eq_three h
  rw [hp]
  obtain ⟨h5, h6⟩ := (within_iff _ _ _).mp hb
  obtain ⟨h7, h8⟩ := within_tail hc
  rw [h3] at h5
  rw [h4] at h6
  generalize hn : extend (extend (a.toNat - 0xE0) b) c = n
  unfold extend at hn
  have hr : 0x800 ≤ n ∧ (n < 0xD800 ∨ 0xDFFF < n) ∧ n < 0x10000 := by
    split at h5 <;> split at h6 <;> omega
  have hb : 0x80 ≤ b.toNat ∧ b.toNat ≤ 0xBF := by
    split at h5 <;> split at h6 <;> omega
  have hv : n.isValidChar := (isValidChar_iff _).mpr (by omega)
  rw [String.utf8EncodeChar]
  simp only [Char.toNat_val, toNat_ofNat_of_valid hv]
  rw [if_neg (by omega), if_neg (by omega), if_pos (by omega),
    ofNat_eq_of_toNat (b := a) (by omega), ofNat_eq_of_toNat (b := b) (by omega),
    ofNat_eq_of_toNat (b := c) (by omega)]

theorem encodeChar_four {a b c d low high : UInt8} {p : Nat} (h : lead a = .four p low high)
    (hb : within low high b = true) (hc : within 0x80 0xBF c = true)
    (hd : within 0x80 0xBF d = true) :
    String.utf8EncodeChar (Char.ofNat (extend (extend (extend p b) c) d)) = [a, b, c, d] := by
  obtain ⟨h1, h2, hp, h3, h4⟩ := lead_eq_four h
  rw [hp]
  obtain ⟨h5, h6⟩ := (within_iff _ _ _).mp hb
  obtain ⟨h7, h8⟩ := within_tail hc
  obtain ⟨h9, h10⟩ := within_tail hd
  rw [h3] at h5
  rw [h4] at h6
  generalize hn : extend (extend (extend (a.toNat - 0xF0) b) c) d = n
  unfold extend at hn
  have hr : 0x10000 ≤ n ∧ n < 0x110000 := by
    split at h5 <;> split at h6 <;> omega
  have hb : 0x80 ≤ b.toNat ∧ b.toNat ≤ 0xBF := by
    split at h5 <;> split at h6 <;> omega
  have hv : n.isValidChar := (isValidChar_iff _).mpr (by omega)
  rw [String.utf8EncodeChar]
  simp only [Char.toNat_val, toNat_ofNat_of_valid hv]
  rw [if_neg (by omega), if_neg (by omega), if_neg (by omega),
    ofNat_eq_of_toNat (b := a) (by omega), ofNat_eq_of_toNat (b := b) (by omega),
    ofNat_eq_of_toNat (b := c) (by omega), ofNat_eq_of_toNat (b := d) (by omega)]

theorem piecesOnto_append (done more : List Piece) (bytes : Bytes) :
    piecesOnto (done ++ more) bytes = more.reverse ++ piecesOnto done bytes := by
  fun_induction piecesOnto done bytes <;> rw [piecesOnto] <;> simp_all

theorem piecesOnto_eq (done : List Piece) (bytes : Bytes) :
    piecesOnto done bytes = done.reverse ++ pieces bytes :=
  piecesOnto_append [] done bytes

theorem pieces_of_piecesOnto_cons {c : Char} {done : List Piece} {rest : Bytes} {text : List Char}
    (h : piecesOnto (.char c :: done) rest = done.reverse ++ text.map Piece.char) :
    ∃ more, text = c :: more ∧ pieces rest = more.map Piece.char := by
  rw [piecesOnto_eq, List.reverse_cons, List.append_assoc] at h
  have h := List.append_cancel_left h
  cases text with
  | nil => cases h
  | cons d more =>
    simp only [List.singleton_append, List.map_cons, List.cons.injEq, Piece.char.injEq] at h
    exact ⟨more, by rw [h.1], h.2⟩

theorem not_reverse_append {done : List Piece} {bad : Piece} {more : List Piece}
    {text : List Char} (hb : ∀ c, bad ≠ .char c) :
    (bad :: done).reverse ++ more ≠ done.reverse ++ text.map Piece.char := by
  intro h
  rw [List.reverse_cons, List.append_assoc] at h
  have h := List.append_cancel_left h
  cases text with
  | nil => cases h
  | cons d rest =>
    rw [List.map_cons] at h
    exact hb d (List.cons.inj h).1

theorem not_piecesOnto_invalid {done : List Piece} {n : Nat} {bytes : Bytes} {text : List Char} :
    piecesOnto (.invalid n :: done) bytes ≠ done.reverse ++ text.map Piece.char := by
  rw [piecesOnto_eq]
  exact not_reverse_append fun c h => by cases h

theorem not_truncated {done : List Piece} {text : List Char} :
    (Piece.truncated :: done).reverse ≠ done.reverse ++ text.map Piece.char := by
  rw [← List.append_nil (Piece.truncated :: done).reverse]
  exact not_reverse_append fun c h => by cases h

theorem encode_cons_of_piecesOnto {c : Char} {taken rest : Bytes} {done : List Piece}
    {text : List Char} (hc : String.utf8EncodeChar c = taken)
    (h : piecesOnto (.char c :: done) rest = done.reverse ++ text.map Piece.char)
    (ih : ∀ {more : List Char},
      piecesOnto (.char c :: done) rest = (Piece.char c :: done).reverse ++ more.map Piece.char →
        encode more = rest) : encode text = taken ++ rest := by
  obtain ⟨more, rfl, hm⟩ := pieces_of_piecesOnto_cons h
  rw [encode, List.flatMap_cons, hc, ← encode]
  congr 1
  apply ih
  rw [piecesOnto_eq, hm]

theorem encode_of_piecesOnto {done : List Piece} {bytes : Bytes} {text : List Char}
    (h : piecesOnto done bytes = done.reverse ++ text.map Piece.char) : encode text = bytes := by
  fun_induction piecesOnto done bytes generalizing text with
  | case1 done =>
    rw [List.map_eq_nil_iff.mp (List.append_right_eq_self.mp h.symm)]
    rfl
  | case2 done a rest hl ih =>
    exact encode_cons_of_piecesOnto (encodeChar_single hl) h ih
  | case5 done a p hl b rest hb ih =>
    exact encode_cons_of_piecesOnto (encodeChar_two hl hb) h ih
  | case9 done a p low high hl b hb c rest hc ih =>
    exact encode_cons_of_piecesOnto (encodeChar_three hl hb hc) h ih
  | case15 done a p low high hl b hb c hc d rest hd ih =>
    exact encode_cons_of_piecesOnto (encodeChar_four hl hb hc hd) h ih
  | case4 => exact absurd h not_truncated
  | case7 => exact absurd h not_truncated
  | case8 => exact absurd h not_truncated
  | case12 => exact absurd h not_truncated
  | case13 => exact absurd h not_truncated
  | case14 => exact absurd h not_truncated
  | _ => exact absurd h not_piecesOnto_invalid

/-- Bytes whose pieces are characters are the bytes of those characters. -/
theorem encode_of_pieces {bytes : Bytes} {text : List Char}
    (h : pieces bytes = text.map Piece.char) : encode text = bytes :=
  @encode_of_piecesOnto [] bytes text h

theorem eq_map_of_charactersOnto {done text : List Char} {index : Nat} {pieces : List Piece}
    (h : charactersOnto done index pieces = .ok text) :
    ∃ more, text = done.reverse ++ more ∧ pieces = more.map Piece.char := by
  induction pieces generalizing done index with
  | nil =>
    cases h
    exact ⟨[], by simp, rfl⟩
  | cons piece rest ih =>
    cases piece with
    | char c =>
      obtain ⟨more, rfl, rfl⟩ := ih h
      exact ⟨c :: more, by simp, rfl⟩
    | invalid n => cases h
    | truncated => cases h

/-- Bytes that decode to a text are the bytes of the text. -/
theorem encode_of_decode {bytes : Bytes} {text : List Char} (h : decode bytes = .ok text) :
    encode text = bytes := by
  obtain ⟨more, rfl, hm⟩ := eq_map_of_charactersOnto h
  exact encode_of_pieces hm

theorem decode_eq_ok_iff {bytes : Bytes} {text : List Char} :
    decode bytes = .ok text ↔ bytes = encode text :=
  ⟨fun h => (encode_of_decode h).symm, fun h => h ▸ decode_encode text⟩

end MarkerSweep.Utf8
