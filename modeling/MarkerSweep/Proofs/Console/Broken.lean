import MarkerSweep.Proofs.Console.Transcript
import MarkerSweep.Text.Utf8.RoundTrip

/-!
# The console on an output that breaks

An output with little room takes the start of what it is offered, and the step that goes beyond the
room fails, with all steps behind it: `finish_takes_start`. What carries the proof is that an
output depends only on the stream that it was offered, not on the writes in which it came.
-/

namespace MarkerSweep

/-! ### Outputs with a limit -/

namespace Sink

variable {room : Nat} {fault : OutputFault} {stream : Bytes}

/-- An output with so much room, after it was offered this stream: it took what fits. -/
def offered (room : Nat) (fault : OutputFault) (stream : Bytes) : Sink :=
  ⟨some (room - stream.length), fault, stream.take room⟩

/-- How a step ends up to whose end this is the stream. -/
def verdict (room : Nat) (fault : OutputFault) (stream : Bytes) : Except OutputFault Unit :=
  if stream.length ≤ room then .ok () else .error fault

theorem limited_eq_offered (room : Nat) (fault : OutputFault) :
    limited room fault = offered room fault [] := by
  rw [offered, List.take_nil]
  rfl

theorem verdict_eq_ok_iff : verdict room fault stream = .ok () ↔ stream.length ≤ room := by
  unfold verdict
  split <;> simp_all

theorem verdict_eq_error_iff {e : OutputFault} :
    verdict room fault stream = .error e ↔ room < stream.length ∧ e = fault := by
  unfold verdict
  split
  · next h => simp [Nat.not_lt_of_le h]
  · next h => simp [Nat.lt_of_not_le h, eq_comm]

/-- What does not fit changes nothing. -/
theorem offered_append (h : room ≤ stream.length) (more : Bytes) :
    offered room fault (stream ++ more) = offered room fault stream := by
  have hlength : room - (stream ++ more).length = room - stream.length := by
    rw [List.length_append]
    omega
  rw [offered, offered, hlength, List.take_append_of_le_length h]

/-- An output that is full stays as it is, and refuses what is offered from then on. -/
theorem offered_when_full {later : Bytes} (hfull : room < stream.length) (h : stream <+: later) :
    verdict room fault later = .error fault ∧
      offered room fault later = offered room fault stream := by
  obtain ⟨more, rfl⟩ := h
  refine ⟨verdict_eq_error_iff.mpr ⟨?_, rfl⟩, offered_append (Nat.le_of_lt hfull) more⟩
  rw [List.length_append]
  omega

theorem write_offered (bytes : Bytes) :
    (offered room fault stream).write bytes =
      (if bytes.length ≤ room - stream.length then .ok () else .error fault,
        offered room fault (stream ++ bytes)) := by
  have hlength : room - (stream ++ bytes).length = room - stream.length - bytes.length := by
    rw [List.length_append]
    omega
  have htaken : (stream ++ bytes).take room =
      stream.take room ++ bytes.take (room - stream.length) := List.take_append
  rw [write, offered, offered, htaken, hlength]
  dsimp only
  split
  · next h => rw [List.take_of_length_le h]
  · next h => rw [Nat.sub_eq_zero_of_le (Nat.le_of_not_le h)]

/-- A line goes out in two writes, and it fits if both do. The second is not empty, so that it fails
where the first one did not fit. -/
theorem writeLine_offered (line : String) :
    (offered room fault stream).writeLine line =
      (verdict room fault (stream ++ Utf8.encode (line.toList ++ ['\n'])),
        offered room fault (stream ++ Utf8.encode (line.toList ++ ['\n']))) := by
  have hbreak : (Utf8.encode ['\n']).length = 1 := by decide
  rw [Utf8.encode_append, ← List.append_assoc, writeLine, writeText, write_offered]
  by_cases h : (Utf8.encode line.toList).length ≤ room - stream.length
  · rw [if_pos h]
    simp only
    rw [writeText, write_offered, verdict]
    congr 1
    simp only [List.length_append, hbreak]
    by_cases hfits : stream.length + (Utf8.encode line.toList).length + 1 ≤ room
    · rw [if_pos hfits, if_pos (by omega)]
    · rw [if_neg hfits, if_neg (by omega)]
  · rw [if_neg h]
    simp only
    -- the line break is not written, but it would not be taken either
    have hover : room < (stream ++ Utf8.encode line.toList).length := by
      rw [List.length_append]
      omega
    rw [offered_append (Nat.le_of_lt hover), verdict, if_neg]
    rw [List.length_append]
    omega

end Sink

/-! ### The steps of the console -/

namespace Console

open Sink

variable {room : Nat} {fault : OutputFault} {stream : Bytes}

theorem lines_append (c : Console) (first second : List Entry) :
    c.lines (first ++ second) = c.lines first ++ c.lines second := by
  unfold lines
  rw [List.flatMap_append]

theorem tell_offered (c : Console) (e : Entry) :
    c.tell (offered room fault stream) e =
      (verdict room fault (stream ++ Utf8.encode (c.lines [e])),
        offered room fault (stream ++ Utf8.encode (c.lines [e]))) := by
  have hline : c.lines [e] = (c.line e).toList ++ ['\n'] := List.flatMap_singleton _ _
  rw [hline]
  exact writeLine_offered (c.line e)

/-- Every line is offered, whatever became of the lines before it. -/
theorem tellAll_offered (c : Console) (entries : List Entry) :
    c.tellAll (offered room fault stream) entries =
      ((List.range entries.length).map fun i =>
          verdict room fault (stream ++ Utf8.encode (c.lines (entries.take (i + 1)))),
        offered room fault (stream ++ Utf8.encode (c.lines entries))) := by
  induction entries generalizing stream with
  | nil =>
    rw [tellAll, lines, List.flatMap_nil, Utf8.encode, List.flatMap_nil, List.append_nil]
    rfl
  | cons e rest ih =>
    have hstream (entries : List Entry) :
        stream ++ Utf8.encode (c.lines [e]) ++ Utf8.encode (c.lines entries) =
          stream ++ Utf8.encode (c.lines (e :: entries)) := by
      rw [List.append_assoc, ← Utf8.encode_append, ← lines_append]
      rfl
    rw [tellAll, tell_offered]
    simp only
    rw [ih]
    simp only [hstream]
    rw [List.length_cons, List.range_succ_eq_map, List.map_cons, List.map_map]
    rfl

/-- The last step makes two lines. It does not begin with the second if the first did not fit. -/
theorem finish_offered (y : Tally) :
    finish (offered room fault stream) y =
      (verdict room fault (stream ++ Utf8.encode ('\n' :: (y.line.toList ++ ['\n']))),
        offered room fault (stream ++ Utf8.encode ('\n' :: (y.line.toList ++ ['\n'])))) := by
  have hlines : Utf8.encode ('\n' :: (y.line.toList ++ ['\n'])) =
      Utf8.encode ['\n'] ++ Utf8.encode (y.line.toList ++ ['\n']) := Utf8.encode_append ['\n'] _
  have hempty : "".toList ++ ['\n'] = ['\n'] := rfl
  rw [finish, writeLine_offered, hempty, hlines, ← List.append_assoc]
  by_cases h : (stream ++ Utf8.encode ['\n']).length ≤ room
  · rw [verdict_eq_ok_iff.mpr h]
    exact writeLine_offered y.line
  · rw [verdict_eq_error_iff.mpr ⟨Nat.lt_of_not_le h, rfl⟩]
    simp only
    have hover : room < (stream ++ Utf8.encode ['\n'] ++
        Utf8.encode (y.line.toList ++ ['\n'])).length := by
      rw [List.length_append]
      omega
    rw [verdict_eq_error_iff.mpr ⟨hover, rfl⟩, offered_append (Nat.le_of_not_le h)]

/-! ### Whole runs -/

theorem tellAll_limited (c : Console) (room : Nat) (fault : OutputFault) (entries : List Entry) :
    c.tellAll (limited room fault) entries =
      ((List.range entries.length).map fun i =>
          verdict room fault (Utf8.encode (c.lines (entries.take (i + 1)))),
        offered room fault (Utf8.encode (c.lines entries))) := by
  rw [limited_eq_offered, tellAll_offered]
  rfl

theorem getElem?_tellAll_limited (c : Console) {entries : List Entry} {i : Nat}
    (hi : i < entries.length) :
    (c.tellAll (limited room fault) entries).1[i]? =
      some (verdict room fault (Utf8.encode (c.lines (entries.take (i + 1))))) := by
  rw [tellAll_limited, List.getElem?_map, List.getElem?_range hi]
  rfl

theorem finish_limited (c : Console) (entries : List Entry) :
    finish (c.tellAll (limited room fault) entries).2 (Tally.ofEntries entries) =
      (verdict room fault (Utf8.encode (c.transcript entries)),
        offered room fault (Utf8.encode (c.transcript entries))) := by
  have htranscript : Utf8.encode (c.transcript entries) = Utf8.encode (c.lines entries) ++
      Utf8.encode ('\n' :: ((Tally.ofEntries entries).line.toList ++ ['\n'])) :=
    Utf8.encode_append _ _
  rw [tellAll_limited, finish_offered, htranscript]

/-- What is offered up to the end of a step starts what is offered up to the end of a later one. -/
theorem encode_lines_take_prefix (c : Console) (entries : List Entry) {i k : Nat} (h : i ≤ k) :
    Utf8.encode (c.lines (entries.take i)) <+: Utf8.encode (c.lines (entries.take k)) := by
  obtain ⟨more, hmore⟩ := List.take_prefix_take_left h
  rw [← hmore, lines_append, Utf8.encode_append]
  exact List.prefix_append _ _

theorem encode_lines_prefix_transcript (c : Console) (entries : List Entry) (i : Nat) :
    Utf8.encode (c.lines (entries.take i)) <+: Utf8.encode (c.transcript entries) := by
  have hlines := c.encode_lines_take_prefix entries (Nat.le_max_left i entries.length)
  rw [List.take_of_length_le (Nat.le_max_right i entries.length)] at hlines
  refine hlines.trans ?_
  rw [transcript, Utf8.encode_append]
  exact List.prefix_append _ _

/-- Of the lines of all files and the lines at the end, an output takes as much from the start as it
has room for. A step succeeds if what was offered up to its end fits. Behind a step that fails all
others fail, and the output stays as it is. -/
theorem finish_takes_start (c : Console) (room : Nat) (fault : OutputFault)
    (entries : List Entry) :
    let start := Sink.limited room fault
    let told := c.tellAll start entries
    let ended := finish told.2 (Tally.ofEntries entries)
    let stream := Utf8.encode (c.transcript entries)
    ended.2.taken = stream.take (min room stream.length) ∧
      told.1.length = entries.length ∧
      (∀ i < entries.length,
        told.1[i]? = some (verdict room fault (Utf8.encode (c.lines (entries.take (i + 1)))))) ∧
      ended.1 = verdict room fault stream ∧
      ∀ i < entries.length, told.1[i]? ≠ some (.ok ()) →
        (∀ k < entries.length, i < k → told.1[k]? = some (.error fault)) ∧
          ended.1 = .error fault ∧
          (∀ k, i < k → (c.tellAll start (entries.take k)).2 =
            (c.tellAll start (entries.take (i + 1))).2) ∧
          ended.2 = (c.tellAll start (entries.take (i + 1))).2 := by
  intro start told ended stream
  have hended : ended = (verdict room fault stream, offered room fault stream) :=
    c.finish_limited entries
  refine ⟨?_, ?_, fun i hi => c.getElem?_tellAll_limited hi, congrArg Prod.fst hended, ?_⟩
  · rw [hended, ← List.take_eq_take_min]
    rfl
  · rw [show told = _ from c.tellAll_limited room fault entries, List.length_map, List.length_range]
  · intro i hi hfails
    -- the stream up to this step starts all that comes later, and fills the output already
    have hfull : room < (Utf8.encode (c.lines (entries.take (i + 1)))).length := by
      apply Nat.lt_of_not_le
      intro hfits
      exact hfails (by rw [c.getElem?_tellAll_limited hi, verdict_eq_ok_iff.mpr hfits])
    obtain ⟨hverdict, hsink⟩ :=
      offered_when_full hfull (c.encode_lines_prefix_transcript entries (i + 1))
    refine ⟨?_, ?_, ?_, ?_⟩
    · intro k hk hik
      have hsteps : i + 1 ≤ k + 1 := by omega
      rw [c.getElem?_tellAll_limited hk,
        (offered_when_full hfull (c.encode_lines_take_prefix entries hsteps)).1]
    · rw [hended, hverdict]
    · intro k hik
      rw [c.tellAll_limited, c.tellAll_limited]
      exact (offered_when_full hfull (c.encode_lines_take_prefix entries hik)).2
    · rw [hended, c.tellAll_limited]
      exact hsink

/-- An output breaks between a line and its line break. -/
theorem finish_takes_start_of_line :
    let c : Console := ⟨true, false⟩
    let entries : List Entry :=
      [⟨Path.ofString "a", .unchanged⟩, ⟨Path.ofString "b", .processed 2⟩]
    let told := c.tellAll (.limited 13 .brokenPipe) entries
    let ended := finish told.2 (Tally.ofEntries entries)
    0 < entries.length ∧ told.1[0]? = some (.error .brokenPipe) ∧
      told.1[1]? = some (.error .brokenPipe) ∧ ended.1 = .error .brokenPipe ∧
      ended.2 = told.2 ∧ ended.2.taken = Utf8.ofString "No changes: a" := by
  intro c entries told ended
  obtain ⟨htaken, -, hsteps, -, hlater⟩ := finish_takes_start c 13 .brokenPipe entries
  have hfirst : told.1[0]? = some (.error .brokenPipe) := by
    rw [hsteps 0 (by decide), Option.some.injEq, verdict_eq_error_iff]
    exact ⟨by decide +kernel, rfl⟩
  obtain ⟨hsecond, hended, hsink, hsame⟩ :=
    hlater 0 (by decide) fun h => nomatch hfirst.symm.trans h
  refine ⟨by decide, hfirst, hsecond 1 (by decide) (by decide), hended, ?_, ?_⟩
  · exact hsame.trans (hsink 2 (by decide)).symm
  · rw [htaken]
    decide +kernel

end Console

end MarkerSweep
