import MarkerSweep.Proofs.Job.Course
import MarkerSweep.Console
import MarkerSweep.Text.Terminal

/-!
# What the console writes

On an output without a limit the console never stops a run, and what it writes of it is its
`transcript`. `tells_transcript` says what that tells of each file and of all of them.
-/

namespace MarkerSweep

/-! ### Words in color -/

namespace Text

variable {text : String}

theorem toList_wrap (e : Effect) (text : String) :
    ((Style.only e).wrap text).toList = '\x1b' :: '[' ::
      (e.number.toList ++ 'm' :: (text.toList ++ ['\x1b', '[', '0', 'm'])) := by
  have hsettings : String.join ((Style.only e).settings.map setting) =
      "\x1b[" ++ e.number ++ "m" := by
    cases e <;> decide +kernel
  unfold Style.wrap
  rw [hsettings]
  simp

namespace Terminal

variable {p : Position}

theorem visibleFrom_escape (i : Interruption) (hp : p.state = .ground) (rest : List Char) :
    visibleFrom i p ('\x1b' :: rest) = visibleFrom i ⟨.escape, false⟩ rest := by
  obtain ⟨state, suspended⟩ := p
  obtain rfl : state = .ground := hp
  cases suspended <;> rfl

theorem visibleFrom_number (i : Interruption) (e : Effect) (rest : List Char) :
    visibleFrom i ⟨.control, false⟩ (e.number.toList ++ 'm' :: rest) =
      visibleFrom i Position.start rest := by
  cases e <;> rfl

/-- On a terminal words in a color look like the words. -/
theorem visible_paint (i : Interruption) (color : Bool) (e : Effect)
    (h : ∀ c ∈ text.toList, State.ground.shows c = true) :
    visible i (paint color (.only e) text).toList = text.toList := by
  cases color with
  | false => exact visible_eq_self i text.toList h
  | true =>
    obtain ⟨p, hp, hshown⟩ := visibleFrom_append i
      (show Position.start.state = .ground from rfl) h ['\x1b', '[', '0', 'm']
    have hreset : visibleFrom i p ['\x1b', '[', '0', 'm'] = [] := visibleFrom_escape i hp _
    calc visible i (paint true (.only e) text).toList
        = visibleFrom i Position.start ('\x1b' :: '[' ::
            (e.number.toList ++ 'm' :: (text.toList ++ ['\x1b', '[', '0', 'm']))) := by
          rw [visible_eq_visibleFrom, ← toList_wrap]
          rfl
      _ = visibleFrom i Position.start (text.toList ++ ['\x1b', '[', '0', 'm']) := by
          rw [visibleFrom_escape i rfl, ← visibleFrom_number i e]
          rfl
      _ = text.toList := by rw [hshown, hreset, List.append_nil]

end Terminal

end Text

/-! ### Outputs without a limit -/

namespace Sink

variable {s : Sink}

/-- The output after it took a text as a whole. -/
def took (s : Sink) (text : List Char) : Sink :=
  { s with taken := s.taken ++ Utf8.encode text }

theorem took_unlimited (hs : s.room = none) (text : List Char) : (s.took text).room = none :=
  hs

theorem took_nil (s : Sink) : s.took [] = s := by
  simp [took, Utf8.encode]

theorem took_took (s : Sink) (first second : List Char) :
    (s.took first).took second = s.took (first ++ second) := by
  simp [took, Utf8.encode]

theorem writeText_unlimited (hs : s.room = none) (text : List Char) :
    s.writeText text = (.ok (), s.took text) := by
  simp only [writeText, write, hs, took]

theorem writeLine_unlimited (hs : s.room = none) (line : String) :
    s.writeLine line = (.ok (), s.took (line.toList ++ ['\n'])) := by
  rw [writeLine, writeText_unlimited hs, ← took_took]
  exact writeText_unlimited (took_unlimited hs _) _

end Sink

/-! ### The lines of a run -/

/-- The words for an outcome. -/
def Outcome.status (dryRun : Bool) : Outcome → String
  | .processed _ => if dryRun then "Would process:" else "Processed:"
  | .unchanged => "No changes:"
  | .failed _ => "Error processing"

/-- What is said of an outcome behind the path. -/
def Outcome.remark : Outcome → String
  | .failed error => ": " ++ error
  | _ => ""

namespace Console

variable {s : Sink}

def lines (c : Console) (entries : List Entry) : List Char :=
  entries.flatMap fun e => (c.line e).toList ++ ['\n']

/-- What the console writes of a run with these entries: the line of each, an empty line, and the
tally. -/
def transcript (c : Console) (entries : List Entry) : List Char :=
  c.lines entries ++ '\n' :: ((Tally.ofEntries entries).line.toList ++ ['\n'])

/-- The line tells of the entry: it shows the words for the outcome, and behind them it has the path
and, of a failure, the error. -/
def Tells (c : Console) (e : Entry) (line : List Char) : Prop :=
  ∃ words, line = words ++ ' ' :: (e.path.display.toList ++ e.outcome.remark.toList) ∧
    (∀ i, Text.Terminal.visible i words = (e.outcome.status c.dryRun).toList) ∧
    (c.color = false → words = (e.outcome.status c.dryRun).toList)

/-- The text has a line for each entry that tells of it, then an empty line, and at the end how many
files were processed out of how many. -/
def TellsAll (c : Console) (entries : List Entry) (text : List Char) : Prop :=
  ∃ line : Entry → List Char, (∀ e, c.Tells e (line e)) ∧
    text = (entries.flatMap fun e => line e ++ ['\n']) ++ '\n' ::
      ("Processed " ++ toString (entries.countP fun e => e.outcome.isProcessed) ++
        " files out of " ++ toString entries.length ++ " total files.\n").toList

theorem shows_status (dryRun : Bool) (outcome : Outcome) :
    ∀ c ∈ (outcome.status dryRun).toList, Text.Terminal.State.ground.shows c = true := by
  have hall : ∀ label ∈ ["Would process:", "Processed:", "No changes:", "Error processing"],
      label.toList.all Text.Terminal.State.ground.shows = true := by decide
  apply List.all_eq_true.mp
  apply hall
  cases outcome with
  | processed removed => cases dryRun <;> simp [Outcome.status]
  | unchanged => simp [Outcome.status]
  | failed error => simp [Outcome.status]

theorem exists_line_eq (c : Console) (e : Entry) :
    ∃ effect, c.line e = Text.paint c.color (.only effect) (e.outcome.status c.dryRun) ++ " " ++
      e.path.display ++ e.outcome.remark := by
  obtain ⟨dryRun, color⟩ := c
  obtain ⟨path, outcome⟩ := e
  cases outcome with
  | processed removed =>
    cases dryRun with
    | true => exact ⟨.yellow, by simp [line, Outcome.status, Outcome.remark]⟩
    | false => exact ⟨.green, by simp [line, Outcome.status, Outcome.remark]⟩
  | unchanged => exact ⟨.dim, by simp [line, Outcome.status, Outcome.remark]⟩
  | failed error =>
    exact ⟨.red, by simp [line, Outcome.status, Outcome.remark, String.append_assoc]⟩

theorem tells_line (c : Console) (e : Entry) : c.Tells e (c.line e).toList := by
  obtain ⟨effect, hline⟩ := c.exists_line_eq e
  refine ⟨(Text.paint c.color (.only effect) (e.outcome.status c.dryRun)).toList, ?_, ?_, ?_⟩
  · rw [hline]
    simp
  · intro i
    exact Text.Terminal.visible_paint i c.color effect (shows_status c.dryRun e.outcome)
  · intro hcolor
    rw [hcolor, Text.paint_false]

theorem tells_transcript (c : Console) (entries : List Entry) :
    c.TellsAll entries (c.transcript entries) := by
  refine ⟨fun e => (c.line e).toList, c.tells_line, ?_⟩
  simp [transcript, lines, Tally.line, Tally.ofEntries]

theorem tell_unlimited (c : Console) (hs : s.room = none) (e : Entry) :
    c.tell s e = (.ok (), s.took ((c.line e).toList ++ ['\n'])) :=
  Sink.writeLine_unlimited hs _

theorem tell_takes (c : Console) (hs : s.room = none) (entries : List Entry) :
    Listener.Takes c.tell s entries ∧ Listener.after c.tell s entries = s.took (c.lines entries) := by
  induction entries generalizing s with
  | nil => exact ⟨trivial, s.took_nil.symm⟩
  | cons e rest ih =>
    have htold := c.tell_unlimited hs e
    obtain ⟨htakes, hafter⟩ := ih (Sink.took_unlimited hs ((c.line e).toList ++ ['\n']))
    refine ⟨⟨congrArg Prod.fst htold, ?_⟩, ?_⟩
    · rw [htold]
      exact htakes
    · show Listener.after c.tell (c.tell s e).2 rest = _
      rw [htold, hafter, Sink.took_took]
      rfl

theorem finish_unlimited (hs : s.room = none) (y : Tally) :
    finish s y = (.ok (), s.took ('\n' :: (y.line.toList ++ ['\n']))) := by
  rw [finish, Sink.writeLine_unlimited hs]
  simp only
  rw [Sink.writeLine_unlimited (Sink.took_unlimited hs _), Sink.took_took]
  rfl

end Console

end MarkerSweep
