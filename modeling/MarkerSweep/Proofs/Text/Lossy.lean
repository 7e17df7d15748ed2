import MarkerSweep.Text.Utf8.RoundTrip

/-!
# What lossy text tells about bytes

Where bytes are shown as text, those below `0x80` stay and cut the rest: `lossy_append` shows what
is before such a byte by itself, also where it breaks off inside a character. `encode_lossy` gives
the bytes back where nothing was replaced.
-/

namespace MarkerSweep.Utf8

/-! ### A byte that continues no character -/

theorem not_within {low high x : UInt8} (hx : x.toNat < 0x80) (hlow : 0x80 ≤ low.toNat) :
    within low high x = false := by
  rw [← Bool.not_eq_true, within_iff]
  omega

theorem not_within_of_lead {a low high x : UInt8} {p : Nat} (hx : x.toNat < 0x80)
    (hl : lead a = .three p low high ∨ lead a = .four p low high) : within low high x = false := by
  apply not_within hx
  rcases hl with hl | hl
  · obtain ⟨-, -, -, hlow, -⟩ := lead_eq_three hl
    split at hlow <;> omega
  · obtain ⟨-, -, -, hlow, -⟩ := lead_eq_four hl
    split at hlow <;> omega

/-- A character that is broken off is shown alike, whether the data end there or go on. -/
theorem map_shown_invalid (n : Nat) (done : List Piece) (bytes : Bytes) :
    (piecesOnto (.invalid n :: done) bytes).map Piece.shown =
      (Piece.truncated :: done).reverse.map Piece.shown ++ lossy bytes := by
  rw [piecesOnto_eq, List.map_append, List.reverse_cons, List.reverse_cons, List.map_append,
    List.map_append]
  rfl

theorem map_shown_piecesOnto_append {x : UInt8} (hx : x.toNat < 0x80) (done : List Piece)
    (a b : Bytes) :
    (piecesOnto done (a ++ x :: b)).map Piece.shown =
      (piecesOnto done a).map Piece.shown ++ lossy (x :: b) := by
  have htail : within 0x80 0xBF x = false := not_within hx (by decide)
  fun_induction piecesOnto done a with
  | case1 done =>
    rw [List.nil_append, piecesOnto_eq, List.map_append]
    rfl
  -- Where `a` breaks off, `x` comes at once or behind one or two more bytes.
  | case4 done a p hl =>
    rw [List.cons_append, piecesOnto]
    simp only [List.nil_append, hl, htail, Bool.false_eq_true, if_false]
    exact map_shown_invalid 1 done _
  | case7 done a p low high hl =>
    rw [List.cons_append, piecesOnto]
    simp only [List.nil_append, hl, not_within_of_lead hx (.inl hl), Bool.false_eq_true, if_false]
    exact map_shown_invalid 1 done _
  | case8 done a p low high hl c hc =>
    rw [List.cons_append, piecesOnto]
    simp only [List.cons_append, List.nil_append, hl, hc, htail, Bool.false_eq_true, if_true,
      if_false]
    exact map_shown_invalid 2 done _
  | case12 done a p low high hl =>
    rw [List.cons_append, piecesOnto]
    simp only [List.nil_append, hl, not_within_of_lead hx (.inr hl), Bool.false_eq_true, if_false]
    exact map_shown_invalid 1 done _
  | case13 done a p low high hl c hc =>
    rw [List.cons_append, piecesOnto]
    simp only [List.cons_append, List.nil_append, hl, hc, htail, Bool.false_eq_true, if_true,
      if_false]
    exact map_shown_invalid 2 done _
  | case14 done a p low high hl c hc d hd =>
    rw [List.cons_append, piecesOnto]
    simp only [List.cons_append, List.nil_append, hl, hc, hd, htail, Bool.false_eq_true, if_true,
      if_false]
    exact map_shown_invalid 3 done _
  -- Otherwise the same piece is cut from `a` with and without what follows.
  | _ =>
    rename_i ih
    rw [List.cons_append, piecesOnto]
    simp only [List.cons_append, Bool.false_eq_true, if_true, if_false, *] at ih ⊢

/-- What is in front of a byte below `0x80` is shown as if nothing followed it. -/
theorem lossy_append {x : UInt8} (hx : x.toNat < 0x80) (a b : Bytes) :
    lossy (a ++ x :: b) = lossy a ++ lossy (x :: b) :=
  map_shown_piecesOnto_append hx [] a b

theorem lossy_cons {x : UInt8} (hx : x.toNat < 0x80) (bytes : Bytes) :
    lossy (x :: bytes) = Char.ofNat x.toNat :: lossy bytes := by
  rw [lossy, pieces, piecesOnto, lead_single hx]
  simp only
  rw [piecesOnto_eq, List.map_append]
  rfl

/-! ### Characters that are shown -/

theorem mem_of_char_mem_piecesOnto {c : Char} {x : UInt8} (hx : x ∈ String.utf8EncodeChar c)
    {done : List Piece} {bytes : Bytes} (h : .char c ∈ piecesOnto done bytes) :
    .char c ∈ done ∨ x ∈ bytes := by
  -- A new character is made of just the bytes that were taken for it.
  have hnew {d : Char} {taken rest : Bytes} {done : List Piece}
      (hd : String.utf8EncodeChar d = taken) (h : .char c ∈ .char d :: done ∨ x ∈ rest) :
      .char c ∈ done ∨ x ∈ taken ++ rest := by
    rcases h with h | h
    · rcases List.mem_cons.mp h with heq | h
      · obtain rfl := Piece.char.inj heq
        rw [hd] at hx
        exact .inr (List.mem_append_left _ hx)
      · exact .inl h
    · exact .inr (List.mem_append_right _ h)
  fun_induction piecesOnto done bytes with
  | case1 done => exact .inl (List.mem_reverse.mp h)
  | case2 done a rest hl ih => exact hnew (encodeChar_single hl) (ih h)
  | case5 done a p hl b rest hb ih => exact hnew (encodeChar_two hl hb) (ih h)
  | case9 done a p low high hl b hb d rest hd ih =>
    exact hnew (encodeChar_three hl hb hd) (ih h)
  | case15 done a p low high hl b hb d hd e rest he ih =>
    exact hnew (encodeChar_four hl hb hd he) (ih h)
  | case4 | case7 | case8 | case12 | case13 | case14 =>
    -- The data end inside a character.
    rw [List.mem_reverse] at h
    exact .inl ((List.mem_cons.mp h).resolve_left (by simp))
  | _ =>
    rename_i ih
    rcases ih h with h | h
    · exact .inl ((List.mem_cons.mp h).resolve_left (by simp))
    · exact .inr (by grind)

/-- A character below `0x80` is shown only where its byte is. -/
theorem mem_of_mem_lossy {c : Char} (hc : c.toNat < 0x80) {bytes : Bytes} (h : c ∈ lossy bytes) :
    UInt8.ofNat c.toNat ∈ bytes := by
  have hbyte : UInt8.ofNat c.toNat ∈ String.utf8EncodeChar c := by
    rw [String.utf8EncodeChar]
    simp only [Char.toNat_val]
    rw [if_pos (by omega)]
    exact List.mem_singleton_self _
  obtain ⟨piece, hpiece, hshown⟩ := List.mem_map.mp h
  cases piece with
  | char d =>
    obtain rfl : d = c := hshown
    exact (mem_of_char_mem_piecesOnto hbyte hpiece).resolve_left List.not_mem_nil
  | invalid n =>
    obtain rfl : '\uFFFD' = c := hshown
    exact absurd hc (by decide)
  | truncated =>
    obtain rfl : '\uFFFD' = c := hshown
    exact absurd hc (by decide)

/-- Where nothing was replaced, the bytes are those of the text that is shown. -/
theorem encode_lossy {bytes : Bytes} (h : '\uFFFD' ∉ lossy bytes) :
    encode (lossy bytes) = bytes := by
  have hchar : ∀ piece ∈ pieces bytes, Piece.char piece.shown = piece := by
    intro piece hpiece
    have hshown : piece.shown ∈ lossy bytes := List.mem_map_of_mem hpiece
    cases piece with
    | char c => rfl
    | invalid n => exact absurd hshown h
    | truncated => exact absurd hshown h
  apply encode_of_pieces
  rw [lossy, List.map_map]
  exact (List.map_id _).symm.trans (List.map_congr_left fun piece hp => (hchar piece hp).symm)

end MarkerSweep.Utf8
