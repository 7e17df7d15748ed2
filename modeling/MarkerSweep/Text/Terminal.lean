import MarkerSweep.Text.Utf8

/-!
# What a terminal shows

A terminal shows most characters of a text and takes the others for commands: control characters,
and the sequences that an escape character starts. `visible` is a text without its commands;
`visible_eq_self` says that a text without command characters is left as it is.
-/

namespace MarkerSweep.Text.Terminal

/-- Where a terminal is in a text. -/
inductive State where
  /-- Outside of all sequences. -/
  | ground
  /-- Behind an escape character. -/
  | escape
  /-- In an escape sequence of several characters. -/
  | escapeIntermediate
  /-- In a control sequence, which a letter or a sign ends. -/
  | control
  /-- In a command to the system, which the bell or an escape character ends. -/
  | systemCommand
  /-- At the start of a command to a device. -/
  | device
  /-- In the parameters of a command to a device. -/
  | deviceParameter
  /-- Between the parameters of a command to a device and its string. -/
  | deviceIntermediate
  /-- In a string for a device or for nobody. -/
  | string
  deriving DecidableEq, Repr

/-- Whether a character is one of the controls that only lay out a text. -/
def isLayout (c : Char) : Bool :=
  c = '\t' || c = '\n' || c = '\x0c' || c = '\r'

/-- Whether a code point lies in a range with both ends included. -/
def between (low high : Nat) (c : Char) : Bool :=
  low ≤ c.toNat && c.toNat ≤ high

/-- Whether the encoding of a character contains the byte that ends a string. -/
def endsString (c : Char) : Bool :=
  (Utf8.encode [c]).contains 0x9C

namespace State

/-- Whether a character is shown. Layout is shown in the short sequences too. -/
def shows : State → Char → Bool
  | ground, c => isLayout c || (0x20 ≤ c.toNat && c != '\x7f')
  | escape, c => isLayout c
  | escapeIntermediate, c => isLayout c
  | control, c => isLayout c
  | _, _ => false

/-- Where the terminal is after a character that does not start or break off a sequence. -/
def continued : State → Char → State
  | ground, _ => ground
  | escape, c =>
    if c = '[' then control
    else if c = ']' then systemCommand
    else if c = 'P' then device
    else if c = 'X' || c = '^' || c = '_' then string
    else if between 0x20 0x2F c then escapeIntermediate
    else if between 0x30 0x7E c then ground
    else escape
  | escapeIntermediate, c => if between 0x30 0x7E c then ground else escapeIntermediate
  | control, c => if between 0x40 0x7E c then ground else control
  | systemCommand, c => if c = '\x07' then ground else systemCommand
  | device, c =>
    if between 0x20 0x2F c then deviceIntermediate
    else if between 0x30 0x3F c then deviceParameter
    else if between 0x40 0x7E c then string
    else device
  | deviceParameter, c =>
    if between 0x20 0x2F c then deviceIntermediate
    else if between 0x3C 0x7E c then string
    else deviceParameter
  | deviceIntermediate, c => if between 0x30 0x7E c then string else deviceIntermediate
  | string, c => if endsString c then ground else string

/-- Where the terminal is after a character: an escape character starts a sequence anywhere, and
the controls for cancelling and substituting break it off. -/
def next (s : State) (c : Char) : State :=
  if c = '\x18' || c = '\x1a' then ground
  else if c = '\x1b' then escape
  else s.continued c

end State

/-- What layout that is shown within a sequence does to the sequence. -/
inductive Interruption where
  /-- It is the end of the sequence. -/
  | ends
  /-- Text goes on behind it, and at the next character that is not text the sequence does. -/
  | suspends
  deriving DecidableEq, Repr

/-- Where a terminal is in a text, and whether it shows text there although it is in a sequence. -/
structure Position where
  state : State
  suspended : Bool
  deriving DecidableEq, Repr

namespace Position

def start : Position := ⟨.ground, false⟩

def shows (p : Position) (c : Char) : Bool :=
  if p.suspended then State.ground.shows c else p.state.shows c

/-- The position after a character. Beyond ASCII a character that is shown ends a sequence. -/
def next (p : Position) (i : Interruption) (c : Char) : Position :=
  if p.shows c then
    if i = .ends || 0x80 ≤ c.toNat then ⟨.ground, false⟩ else ⟨p.state, true⟩
  else ⟨p.state.next c, false⟩

end Position

/-- What is shown of a text from a position on. -/
def visibleFrom (i : Interruption) (p : Position) : List Char → List Char
  | [] => []
  | c :: rest =>
    if p.shows c then c :: visibleFrom i (p.next i c) rest else visibleFrom i (p.next i c) rest

/-- The same behind what is shown of the text before, which stands in reverse. -/
def visibleOnto (i : Interruption) (done : List Char) (p : Position) : List Char → List Char
  | [] => done.reverse
  | c :: rest => visibleOnto i (if p.shows c then c :: done else done) (p.next i c) rest

/-- What is shown of a text. -/
def visible (i : Interruption) (text : List Char) : List Char :=
  visibleOnto i [] Position.start text

theorem visibleOnto_eq (i : Interruption) (done : List Char) (p : Position) (text : List Char) :
    visibleOnto i done p text = done.reverse ++ visibleFrom i p text := by
  induction text generalizing done p with
  | nil => simp [visibleOnto, visibleFrom]
  | cons c rest ih =>
    rw [visibleOnto, ih, visibleFrom]
    split <;> simp

theorem visible_eq_visibleFrom (i : Interruption) (text : List Char) :
    visible i text = visibleFrom i Position.start text :=
  visibleOnto_eq i [] Position.start text

/-- What is shown at the start of a text stands at the start of what is shown of it. -/
theorem visibleFrom_append (i : Interruption) {p : Position} (hp : p.state = .ground)
    {text : List Char} (h : ∀ c ∈ text, State.ground.shows c = true) (rest : List Char) :
    ∃ p', p'.state = .ground ∧ visibleFrom i p (text ++ rest) = text ++ visibleFrom i p' rest := by
  induction text generalizing p with
  | nil => exact ⟨p, hp, rfl⟩
  | cons c more ih =>
    have hs : p.shows c = true := by
      rw [Position.shows, hp, ite_self]
      exact h c List.mem_cons_self
    have hnext : (p.next i c).state = .ground := by
      rw [Position.next, if_pos hs]
      split
      · rfl
      · exact hp
    obtain ⟨p', hground, hp'⟩ := ih hnext fun d hd => h d (List.mem_cons_of_mem c hd)
    exact ⟨p', hground, by rw [List.cons_append, visibleFrom, if_pos hs, hp']; rfl⟩

/-- A text that is shown as a whole is left as it is. -/
theorem visible_eq_self (i : Interruption) (text : List Char)
    (h : ∀ c ∈ text, State.ground.shows c = true) : visible i text = text := by
  obtain ⟨p, -, hp⟩ := visibleFrom_append i (show Position.start.state = .ground from rfl) h []
  rw [visibleFrom, List.append_nil] at hp
  rw [visible_eq_visibleFrom, hp]

end MarkerSweep.Text.Terminal
