import MarkerSweep.Program
import MarkerSweep.Proofs.CommandLine.Reading
import Mathlib.Data.List.Basic

/-!
# Stops that are final

A value that waits to be checked can turn out wrong at the end of the line, so that more arguments
may give another answer. `run_stopped_for_good`: no further argument, and no variable, changes the
answer where an argument stands for nothing, has a value that is not wanted, or is a question.
-/

namespace MarkerSweep.CommandLine

/-- The stops that come at an argument itself, and not when the value of an option is settled. -/
def Stop.IsImmediate : Stop → Prop
  | .error (.unknown _) => True
  | .error (.missingValue _) => False
  | .error (.unwantedValue _ _) => True
  | .error (.repeated _) => False
  | .error .notText => False
  | .question _ => True

/-! ### Where lines stop -/

namespace Reading

variable {r z : Reading} {stop : Stop} {arguments : List Bytes}
  {environment : PerField (Option Bytes)}

theorem store_not_immediate {f : Field} {value : Bytes} (h : r.store f value = .error stop) :
    ¬ stop.IsImmediate := by
  rw [store] at h
  split at h
  · cases h
    exact id
  · split at h
    · next e he =>
      cases h
      rw [Field.eq_refusal he]
      cases f <;> exact id
    · cases h

theorem settle_not_immediate (h : r.settle = .error stop) : ¬ stop.IsImmediate := by
  unfold settle at h
  split at h
  · cases h
  · cases h
    exact id
  · exact store_not_immediate h

theorem consult_not_immediate {f : Field} (h : r.consult environment f = .error stop) :
    ¬ stop.IsImmediate := by
  unfold consult at h
  split at h
  · exact store_not_immediate h
  · cases h

theorem consultAll_not_immediate (h : r.consultAll environment = .error stop) :
    ¬ stop.IsImmediate := by
  rcases bind_eq_error_iff.mp h with h | ⟨r, -, h⟩
  · exact consult_not_immediate h
  · rcases bind_eq_error_iff.mp h with h | ⟨r, -, h⟩
    · exact consult_not_immediate h
    · exact consult_not_immediate h

/-- A line that stops at one of its arguments is not read further. The induction needs no invariant
of what was read: an immediate stop is none of the end of the line. -/
theorem takeAll_append_of_immediate (h : r.takeAll arguments = .error stop)
    (hstop : stop.IsImmediate) (more : List Bytes) :
    r.takeAll (arguments ++ more) = .error stop := by
  induction arguments generalizing r with
  | nil => exact absurd hstop (settle_not_immediate h)
  | cons bytes rest ih =>
    rw [List.cons_append]
    by_cases he : Argument.ofBytes bytes = .escape
    · rw [takeAll_escape he] at h ⊢
      cases rest with
      | nil => exact absurd hstop (settle_not_immediate h)
      | cons text rest => exact h
    · rw [takeAll_cons he, bind_eq_error_iff] at h ⊢
      rcases h with h | ⟨r', hr, h⟩
      · exact .inl h
      · exact .inr ⟨r', hr, ih h⟩

end Reading

theorem parse_append_of_immediate {arguments : List Bytes} {stop : Stop}
    {environment : PerField (Option Bytes)} (h : parse arguments environment = .error stop)
    (hstop : stop.IsImmediate) (more : List Bytes) (environment' : PerField (Option Bytes)) :
    parse (arguments ++ more) environment' = .error stop := by
  have hline : Reading.start.takeAll arguments = .error stop := by
    rcases Reading.bind_eq_error_iff.mp h with h | ⟨r, -, h⟩
    · exact h
    · rcases Reading.bind_eq_error_iff.mp h with h | ⟨r, -, h⟩
      · exact absurd hstop (Reading.consultAll_not_immediate h)
      · cases h
  exact Reading.bind_eq_error_iff.mpr
    (.inl (Reading.takeAll_append_of_immediate hline hstop more))

/-! ### What is said of it -/

def firstLine (text : List Char) : List Char :=
  text.takeWhile (· ≠ '\n')

theorem firstLine_append {line : List Char} (h : '\n' ∉ line) (rest : List Char) :
    firstLine (line ++ '\n' :: rest) = line := by
  unfold firstLine
  rw [List.takeWhile_append_of_pos]
  · simp
  · intro c hc
    simp only [ne_eq, decide_not, Bool.not_eq_true', decide_eq_false_iff_not]
    rintro rfl
    exact h hc

/-- What the answer to a question starts with, on a line of its own. -/
def Question.title : Question → String
  | .help false => "Command-line interface for darkstrip"
  | .help true => "Strip dark-mode utility classes (\x60dark:*\x60) from component sources"
  | .version => "darkstrip 0.1.0"

def StartsWith (line : String) (text : String) : Prop :=
  ∃ rest, text.toList = line.toList ++ '\n' :: rest

theorem StartsWith.append {line text : String} (h : StartsWith line text) (more : String) :
    StartsWith line (text ++ more) := by
  obtain ⟨rest, h⟩ := h
  exact ⟨rest ++ more.toList, by rw [String.toList_append, h, List.append_assoc]; rfl⟩

theorem Question.startsWith_answer (q : Question) (environment : PerField (Option Bytes)) :
    StartsWith q.title (q.answer environment) := by
  cases q with
  | help full =>
    cases full with
    | false =>
      apply StartsWith.append
      apply StartsWith.append
      exact ⟨['\n'], by decide⟩
    | true =>
      iterate 7 apply StartsWith.append
      exact ⟨['\n'], by decide⟩
  | version =>
    refine ⟨[], ?_⟩
    show versionLine.toList = _
    decide

theorem Question.firstLine_shown (q : Question) (color : Bool)
    (environment : PerField (Option Bytes)) :
    firstLine (Program.shown color (q.answer environment)) = q.title.toList := by
  have hbreak : '\n' ∉ q.title.toList := by
    cases q with
    | help full => cases full <;> decide
    | version => decide
  -- the title holds no command to a terminal, whatever the variables behind it hold
  have hshown : ∀ c ∈ q.title.toList ++ ['\n'], Text.Terminal.State.ground.shows c = true := by
    apply List.all_eq_true.mp
    cases q with
    | help full => cases full <;> decide
    | version => decide
  obtain ⟨rest, hrest⟩ := q.startsWith_answer environment
  unfold Program.shown
  rw [hrest]
  cases color with
  | true => exact firstLine_append hbreak rest
  | false =>
    obtain ⟨p, -, hp⟩ := Text.Terminal.visibleFrom_append .suspends
      (show Text.Terminal.Position.start.state = .ground from rfl) hshown rest
    rw [List.append_assoc, List.singleton_append] at hp
    rw [if_neg (by simp), Text.Terminal.visible_eq_visibleFrom, hp, List.append_assoc]
    exact firstLine_append hbreak _

end MarkerSweep.CommandLine

namespace MarkerSweep.Program

open CommandLine

/-- An argument that stands for nothing, a value that is not wanted and a question are final: with
any further arguments and any variables the program stops for the same reason, with the same exit
code, and says the same of it, but for the color. Of the help, which shows the variables, that is
its first line. -/
theorem run_stopped_for_good {c c' : Call} {stop : Stop}
    (hstop : parse c.arguments c.environment = .error stop) (himmediate : stop.IsImmediate)
    (hmore : c.arguments <+: c'.arguments) (h : Host) (t : Tree) (s : Sink) :
    parse c'.arguments c'.environment = .error stop ∧
      (run c' h t s).code = (run c h t s).code ∧
      (c'.usageColor = c.usageColor → (run c' h t s).messages = (run c h t s).messages) ∧
      (∀ e, stop = .error e →
        (run c' h t s).messages = String.ofList (shown c'.usageColor e.styled) ++ "\n") ∧
      ∀ q, stop = .question q →
        firstLine (shown c'.usageColor (q.answer c'.environment)) =
          firstLine (shown c.usageColor (q.answer c.environment)) := by
  have hstop' : parse c'.arguments c'.environment = .error stop := by
    obtain ⟨more, hmore⟩ := hmore
    rw [← hmore]
    exact parse_append_of_immediate hstop himmediate more c'.environment
  unfold run
  rw [hstop, hstop']
  refine ⟨rfl, ?_, ?_, ?_, ?_⟩
  · cases stop <;> rfl
  · intro hcolor
    rw [hcolor]
    cases stop <;> rfl
  · rintro e rfl
    rfl
  · intro q _
    rw [q.firstLine_shown, q.firstLine_shown]

/-- An option whose value is still to come does not hide what is wrong with the next argument. -/
theorem run_stopped_at_unknown_name :
    let h : Host := ⟨[], 7, 0o022⟩
    let c : Call := ⟨["--ext", "--watch"].map Utf8.ofString, .all none, none, none⟩
    let stop : Stop := .error (.unknown "--watch")
    let environment : PerField (Option Bytes) := ⟨some [], some [0xFF], none⟩
    let c' : Call := ⟨["--ext", "--watch", "--help"].map Utf8.ofString, environment, none, none⟩
    parse c.arguments c.environment = .error stop ∧ stop.IsImmediate ∧
      c.arguments <+: c'.arguments ∧ parse c'.arguments c'.environment = .error stop ∧
      (run c' h .empty .unlimited).code = 2 ∧
      (run c' h .empty .unlimited).messages = (run c h .empty .unlimited).messages := by
  intro h c stop environment c'
  have hstop : parse c.arguments c.environment = .error stop := by decide +kernel
  have hmore : c.arguments <+: c'.arguments := ⟨[Utf8.ofString "--help"], rfl⟩
  obtain ⟨hparse, hcode, hmessages, -⟩ :=
    run_stopped_for_good hstop trivial hmore h .empty .unlimited
  refine ⟨hstop, trivial, hmore, hparse, hcode.trans ?_, hmessages rfl⟩
  decide +kernel

end MarkerSweep.Program
