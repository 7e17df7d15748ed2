import MarkerSweep.Proofs.CommandLine.Item

/-!
# Reading items

`takeAll_item` says what reading an item comes to, and `exists_item` that a line which is read to
its end starts with an item. The value of an option is checked only when something else comes, so
both have to look behind the item.
-/

namespace MarkerSweep.CommandLine

/-! ### What is pending -/

namespace Reading

variable {r r₀ r' z : Reading} {f : Field} {value : Bytes} {stop : Stop}
  {arguments rest : List Bytes}

theorem bind_eq_ok_iff {ε α β : Type} {x : Except ε α} {g : α → Except ε β} {b : β} :
    (x >>= g) = .ok b ↔ ∃ a, x = .ok a ∧ g a = .ok b := by
  cases x with
  | error e => simp [bind, Except.bind]
  | ok a => simp [bind, Except.bind]

theorem bind_eq_error_iff {ε α β : Type} {x : Except ε α} {g : α → Except ε β} {e : ε} :
    (x >>= g) = .error e ↔ x = .error e ∨ ∃ a, x = .ok a ∧ g a = .error e := by
  cases x with
  | error e' => simp [bind, Except.bind]
  | ok a => simp [bind, Except.bind]

theorem store_eq_ok_iff :
    r.store f value = .ok r' ↔
      r.values.get f = none ∧ f.Admits value ∧
        r' = { r with values := r.values.set f (some value) } := by
  rw [store, ← Field.valueError?_eq_none_iff]
  cases hv : r.values.get f with
  | some old => simp
  | none =>
    cases he : f.valueError? value with
    | some e => simp
    | none => simp [eq_comm]

theorem settle_of_pending_eq_none (h : r.pending = none) : r.settle = .ok r := by
  rw [settle, h]

theorem pending_of_settle (h : r.settle = .ok r₀) : r₀.pending = none := by
  unfold settle at h
  split at h
  · next hp =>
    cases h
    exact hp
  · cases h
  · obtain ⟨-, -, rfl⟩ := store_eq_ok_iff.mp h
    rfl

theorem takeName_of_settle (h : r.settle = .ok r₀) (d : Declared) :
    r.takeName d = r₀.takeName d := by
  rw [takeName, takeName, h, settle_of_pending_eq_none (pending_of_settle h)]

theorem takeName_of_settle_error (h : r.settle = .error stop) (d : Declared) :
    r.takeName d = .error stop := by
  rw [takeName, h]

theorem takeName_switch_eq_ok_iff {s : Switch} :
    r.takeName (.switch s) = .ok r' ↔
      ∃ r₀, r.settle = .ok r₀ ∧ r₀.switches.get s = false ∧
        r' = { r₀ with switches := r₀.switches.turnOn s } := by
  rw [takeName]
  cases r.settle with
  | error stop => simp
  | ok r₀ =>
    by_cases hs : r₀.switches.get s = true
    · simp [hs]
    · simp only [hs, Except.ok.injEq, exists_eq_left']
      simp [eq_comm]

theorem takeName_question_ne_ok (q : Question) : r.takeName (.question q) ≠ .ok r' := by
  rw [takeName]
  cases r.settle <;> simp

theorem takeLetters_of_settle (h : r.settle = .ok r₀) (letters : Bytes) {pieces : List Utf8.Piece}
    (hne : pieces ≠ []) : r.takeLetters letters pieces = r₀.takeLetters letters pieces := by
  cases pieces with
  | nil => exact absurd rfl hne
  | cons piece rest =>
    cases piece with
    | char c => simp only [takeLetters, takeName_of_settle h]
    | invalid n => rfl
    | truncated => rfl

theorem takePlain_of_settle (h : r.settle = .ok r₀) (text : Bytes) :
    r.takePlain text = r₀.takePlain text := by
  unfold takePlain
  rw [pending_of_settle h]
  split
  · next hp =>
    rw [settle, hp] at h
    cases h
  · rfl

/-- What came last, once it can be settled, may as well be settled before an argument is read. -/
theorem take_of_settle (h : r.settle = .ok r₀) {a : Argument} (he : a ≠ .escape)
    (hc : a ≠ .cluster []) : r.take a = r₀.take a := by
  have hp := settle_of_pending_eq_none (pending_of_settle h)
  cases a with
  | escape => exact absurd rfl he
  | long name value =>
    cases hd : Declared.ofName? name with
    | none => simp only [take, hd]
    | some d =>
      cases value with
      | none => simp only [take, hd, takeName_of_settle h]
      | some value => cases d <;> simp only [take, hd, takeNameWithValue, h, hp]
  | cluster letters =>
    apply takeLetters_of_settle h letters
    apply pieces_ne_nil
    rintro rfl
    exact hc rfl
  | plain text => exact takePlain_of_settle h text

/-- Where what came last cannot be settled, only a value can be read. -/
theorem take_of_settle_error (h : r.settle = .error stop) {a : Argument} (he : a ≠ .escape)
    (hc : a ≠ .cluster []) (hp : ∀ text, a ≠ .plain text) : ∃ stop', r.take a = .error stop' := by
  cases a with
  | escape => exact absurd rfl he
  | long name value =>
    cases hd : Declared.ofName? name with
    | none => simp [take, hd]
    | some d =>
      cases value with
      | none => simp [take, hd, takeName_of_settle_error h]
      | some value => cases d <;> simp [take, hd, takeNameWithValue, h]
  | cluster letters =>
    have hne : letters ≠ [] := by
      rintro rfl
      exact hc rfl
    obtain ⟨piece, rest, hpieces⟩ := List.exists_cons_of_ne_nil (pieces_ne_nil hne)
    simp only [take, hpieces]
    cases piece with
    | char c =>
      cases hd : Declared.ofLetter? c with
      | none => simp [takeLetters, hd]
      | some d => simp [takeLetters, hd, takeName_of_settle_error h]
    | invalid n => exact ⟨_, rfl⟩
    | truncated => exact ⟨_, rfl⟩
  | plain text => exact absurd rfl (hp text)

/-! ### Reading a line to its end -/

theorem takeAll_escape {bytes : Bytes} (he : Argument.ofBytes bytes = .escape) :
    r.takeAll (bytes :: rest) = r.takeEscaped rest := by
  rw [takeAll, he]

theorem takeAll_cons {bytes : Bytes} (he : Argument.ofBytes bytes ≠ .escape) :
    r.takeAll (bytes :: rest) = r.take (Argument.ofBytes bytes) >>= fun r => r.takeAll rest := by
  rw [takeAll]
  split
  · next h => exact absurd h he
  · cases r.take (Argument.ofBytes bytes) with
    | error stop => rfl
    | ok r => rfl

theorem takeAll_of_settle (h : r.settle = .ok r₀) (arguments : List Bytes) :
    r.takeAll arguments = r₀.takeAll arguments := by
  have hp := settle_of_pending_eq_none (pending_of_settle h)
  cases arguments with
  | nil => exact h.trans hp.symm
  | cons bytes rest =>
    by_cases he : Argument.ofBytes bytes = .escape
    · rw [takeAll_escape he, takeAll_escape he]
      cases rest with
      | nil => exact h.trans hp.symm
      | cons text rest => rfl
    · rw [takeAll_cons he, takeAll_cons he,
        take_of_settle h he (Argument.ofBytes_ne_cluster_nil bytes)]

/-- Where what came last cannot be settled, the line is not read to its end, unless a value is still
to come. -/
theorem takeAll_of_settle_error (h : r.settle = .error stop) (hz : r.takeAll arguments = .ok z) :
    ∃ f value rest, r.pending = some (f, none) ∧ arguments = value :: rest ∧
      StandsAlone value ∧
      takeAll { r with pending := some (f, some value) } rest = .ok z := by
  cases arguments with
  | nil =>
    rw [takeAll, h] at hz
    cases hz
  | cons bytes rest =>
    by_cases he : Argument.ofBytes bytes = .escape
    · rw [takeAll_escape he] at hz
      cases rest with
      | nil =>
        rw [takeEscaped, h] at hz
        cases hz
      | cons text rest => cases hz
    · rw [takeAll_cons he] at hz
      by_cases hp : ∃ text, Argument.ofBytes bytes = .plain text
      · obtain ⟨text, hp⟩ := hp
        obtain ⟨rfl, halone⟩ := Argument.ofBytes_eq_plain_iff.mp hp
        rw [hp, take, takePlain] at hz
        split at hz
        · next f hpending => exact ⟨f, bytes, rest, hpending, rfl, halone, hz⟩
        · cases hz
      · rw [not_exists] at hp
        obtain ⟨stop', herror⟩ :=
          take_of_settle_error h he (Argument.ofBytes_ne_cluster_nil bytes) hp
        rw [herror] at hz
        cases hz

/-! ### Reading items -/

/-- Takes what an item gives, where nothing is pending. -/
def give (r : Reading) : Item → Except Stop Reading
  | .letter => r.takeName (.switch .verbose)
  | .switch s => r.takeName (.switch s)
  | .joined f value => r.store f value
  | .apart f value => r.store f value

theorem takeAll_name {d : Declared} (hd : d ∈ Declared.all) :
    r.takeAll (d.argument :: rest) = r.takeName d >>= fun r => r.takeAll rest := by
  have hb := Declared.ofBytes_argument d hd
  rw [takeAll_cons (by simp [hb]), hb]
  simp only [take, Declared.ofName?_name d hd]

theorem takeAll_letter :
    r.takeAll (Utf8.ofString "-v" :: rest) =
      r.takeName (.switch .verbose) >>= fun r => r.takeAll rest := by
  have hb : Argument.ofBytes (Utf8.ofString "-v") = .cluster (Utf8.ofString "v") := by
    decide +kernel
  have hpieces : Utf8.pieces (Utf8.ofString "v") = [.char 'v'] := by decide +kernel
  have hletter : Declared.ofLetter? 'v' = some (.switch .verbose) := by decide +kernel
  rw [takeAll_cons (by simp [hb]), hb]
  simp only [take, hpieces, takeLetters, hletter]
  cases r.takeName (.switch .verbose) <;> rfl

theorem takeAll_joined (hp : r.pending = none) (f : Field) (value : Bytes) :
    r.takeAll ((Declared.argument (.field f) ++ equals :: value) :: rest) =
      r.store f value >>= fun r => r.takeAll rest := by
  have hd : Declared.field f ∈ Declared.all := Declared.mem_all _ (by simp)
  have hb := Declared.ofBytes_argument_value hd value
  rw [takeAll_cons (by simp [hb]), hb]
  simp only [take, Declared.ofName?_name _ hd, takeNameWithValue, settle_of_pending_eq_none hp]

theorem takeAll_apart (hp : r.pending = none) (f : Field) (ha : StandsAlone value) :
    r.takeAll (Declared.argument (.field f) :: value :: rest) =
      takeAll { r with pending := some (f, some value) } rest := by
  have hd : Declared.field f ∈ Declared.all := Declared.mem_all _ (by simp)
  have hb := Argument.ofBytes_eq_plain_iff.mpr ⟨rfl, ha⟩
  rw [takeAll_name hd, takeName, settle_of_pending_eq_none hp]
  show takeAll { r with pending := some (f, none) } (value :: rest) = _
  rw [takeAll_cons (by simp [hb]), hb]
  rfl

theorem takeAll_item (hp : r.pending = none) {i : Item} (hi : i.WellSpelled) :
    r.takeAll (i.arguments ++ rest) = .ok z ↔
      ∃ r', r.give i = .ok r' ∧ r'.takeAll rest = .ok z := by
  cases i with
  | letter =>
    show r.takeAll (Utf8.ofString "-v" :: rest) = _ ↔ _
    rw [takeAll_letter, bind_eq_ok_iff]
    rfl
  | switch s =>
    show r.takeAll (Declared.argument (.switch s) :: rest) = _ ↔ _
    rw [takeAll_name (Declared.mem_all _ (by simp)), bind_eq_ok_iff]
    rfl
  | joined f value =>
    show r.takeAll ((Declared.argument (.field f) ++ equals :: value) :: rest) = _ ↔ _
    rw [takeAll_joined hp, bind_eq_ok_iff]
    rfl
  | apart f value =>
    show r.takeAll (Declared.argument (.field f) :: value :: rest) = _ ↔ _
    rw [takeAll_apart hp f hi]
    -- The value is checked only when something else comes, but then it has to be right.
    have hsettle : settle { r with pending := some (f, some value) } = r.store f value := by
      obtain ⟨switches, values, pending⟩ := r
      obtain rfl : pending = none := hp
      rfl
    cases hs : r.store f value with
    | ok r' =>
      rw [takeAll_of_settle (hsettle.trans hs)]
      simp [give, hs]
    | error stop =>
      simp only [give, hs, reduceCtorEq, false_and, exists_false, iff_false]
      intro hz
      obtain ⟨g, value', rest', hpending, -⟩ := takeAll_of_settle_error (hsettle.trans hs) hz
      cases hpending

/-! ### The item that a line starts with -/

/-- The only letter behind which a line can go on is the one of the switch. -/
theorem takeLetters_cons_eq_ok {letters : Bytes} {c : Char} {pieces : List Utf8.Piece}
    (hz : r.takeLetters letters (.char c :: pieces) = .ok z) :
    c = 'v' ∧ ∃ r' more, r.takeName (.switch .verbose) = .ok r' ∧
      r'.takeLetters more pieces = .ok z := by
  rw [takeLetters] at hz
  cases hd : Declared.ofLetter? c with
  | none =>
    rw [hd] at hz
    cases hz
  | some d =>
    simp only [hd] at hz
    cases hname : r.takeName d with
    | error stop =>
      rw [hname] at hz
      cases hz
    | ok r' =>
      simp only [hname] at hz
      unfold Declared.ofLetter? at hd
      have hmem := List.mem_of_find?_eq_some hd
      have hfound := List.find?_some hd
      simp only [decide_eq_true_eq] at hfound
      simp only [List.mem_cons, List.not_mem_nil, or_false] at hmem
      rcases hmem with rfl | rfl | rfl
      · exact ⟨(Option.some.inj hfound).symm, r', _, hname, hz⟩
      · exact absurd hname (takeName_question_ne_ok _)
      · exact absurd hname (takeName_question_ne_ok _)

theorem eq_letter_of_takeLetters {letters : Bytes} (hne : letters ≠ [])
    (hz : r.takeLetters letters (Utf8.pieces letters) = .ok z) :
    letters = Utf8.ofString "v" := by
  cases hpieces : Utf8.pieces letters with
  | nil => exact absurd hpieces (pieces_ne_nil hne)
  | cons piece rest =>
    rw [hpieces] at hz
    cases piece with
    | invalid n => cases hz
    | truncated => cases hz
    | char c =>
      obtain ⟨rfl, r', more, hname, hz⟩ := takeLetters_cons_eq_ok hz
      obtain ⟨r₀, hsettle, -, rfl⟩ := takeName_switch_eq_ok_iff.mp hname
      cases rest with
      | nil =>
        have hletter : Utf8.encode ['v'] = letters := Utf8.encode_of_pieces hpieces
        exact hletter.symm
      | cons piece rest =>
        cases piece with
        | invalid n => cases hz
        | truncated => cases hz
        | char c =>
          -- The switch is on already.
          obtain ⟨-, r'', -, hagain, -⟩ := takeLetters_cons_eq_ok hz
          obtain ⟨r₁, hsettle', hoff, -⟩ := takeName_switch_eq_ok_iff.mp hagain
          have hp : r₀.pending = none := pending_of_settle hsettle
          have hstill : settle { r₀ with switches := r₀.switches.turnOn .verbose } =
              .ok { r₀ with switches := r₀.switches.turnOn .verbose } :=
            settle_of_pending_eq_none hp
          rw [hstill] at hsettle'
          cases hsettle'
          rw [Switches.get_turnOn] at hoff
          simp at hoff

/-- A line that starts with a name alone, and is read to its end, starts with an item. -/
theorem exists_item_of_name {d : Declared} (hp : r.pending = none)
    (hz : (r.takeName d >>= fun r => r.takeAll rest) = .ok z) :
    ∃ i rest', d.argument :: rest = Item.arguments i ++ rest' ∧ i.WellSpelled := by
  obtain ⟨r', hname, hz⟩ := bind_eq_ok_iff.mp hz
  cases d with
  | switch s => exact ⟨.switch s, rest, rfl, trivial⟩
  | question q => exact absurd hname (takeName_question_ne_ok q)
  | field f =>
    simp only [takeName, settle_of_pending_eq_none hp] at hname
    obtain rfl := Except.ok.inj hname
    have hmissing : settle { r with pending := some (f, none) } =
        .error (.error (.missingValue f)) := rfl
    obtain ⟨g, value, rest', -, rfl, halone, -⟩ := takeAll_of_settle_error hmissing hz
    exact ⟨.apart f value, rest', rfl, halone⟩

/-- The same of a line that starts with a name and a value in one argument. -/
theorem exists_item_of_nameWithValue {d : Declared}
    (hz : r.takeNameWithValue d value = .ok z) (rest : List Bytes) :
    ∃ i, (d.argument ++ equals :: value) :: rest = Item.arguments i ++ rest ∧
      i.WellSpelled := by
  cases d with
  | switch s => cases hz
  | question q => cases hz
  | field f => exact ⟨.joined f value, rfl, trivial⟩

/-- A line that is read to its end is empty, or two hyphens, or starts with an item. -/
theorem exists_item (hp : r.pending = none) (hz : r.takeAll arguments = .ok z) :
    ((arguments = [] ∨ arguments = [[hyphen, hyphen]]) ∧ z = r) ∨
      ∃ i rest, arguments = Item.arguments i ++ rest ∧ i.WellSpelled := by
  have hsettle := settle_of_pending_eq_none hp
  cases arguments with
  | nil =>
    rw [takeAll, hsettle] at hz
    exact .inl ⟨.inl rfl, (Except.ok.inj hz).symm⟩
  | cons bytes rest =>
    have hbytes := Argument.bytes_ofBytes bytes
    by_cases he : Argument.ofBytes bytes = .escape
    · rw [takeAll_escape he] at hz
      rw [he] at hbytes
      cases rest with
      | nil =>
        rw [takeEscaped, hsettle] at hz
        exact .inl ⟨.inr (by rw [← hbytes]; rfl), (Except.ok.inj hz).symm⟩
      | cons text rest => cases hz
    · rw [takeAll_cons he] at hz
      right
      cases ha : Argument.ofBytes bytes with
      | escape => exact absurd ha he
      | plain text =>
        rw [ha, take, takePlain, hp] at hz
        cases hz
      | cluster letters =>
        have hne : letters ≠ [] := by
          rintro rfl
          exact Argument.ofBytes_ne_cluster_nil bytes ha
        rw [ha] at hz hbytes
        obtain ⟨r', hletters, -⟩ := bind_eq_ok_iff.mp hz
        obtain rfl := eq_letter_of_takeLetters hne hletters
        rw [← hbytes]
        exact ⟨.letter, rest, rfl, trivial⟩
      | long name value =>
        rw [ha] at hz hbytes
        rw [← hbytes]
        cases hd : Declared.ofName? name with
        | none =>
          simp only [take, hd] at hz
          cases hz
        | some d =>
          obtain rfl := Declared.name_of_ofName? hd
          cases value with
          | none =>
            simp only [take, hd] at hz
            exact exists_item_of_name hp hz
          | some value =>
            simp only [take, hd] at hz
            obtain ⟨r', hvalue, -⟩ := bind_eq_ok_iff.mp hz
            obtain ⟨i, harguments, hi⟩ := exists_item_of_nameWithValue hvalue rest
            exact ⟨i, rest, harguments, hi⟩

end Reading

end MarkerSweep.CommandLine
