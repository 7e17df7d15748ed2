/-!
# Styled texts

A terminal shows a text in a style behind sequences that set the style, up to one that resets it.
-/

namespace MarkerSweep.Text

/-- One thing about the look of a text. -/
inductive Effect where
  | bold
  | dim
  | underlined
  | red
  | green
  | yellow
  deriving DecidableEq, Repr

def Effect.number : Effect → String
  | .bold => "1"
  | .dim => "2"
  | .underlined => "4"
  | .red => "31"
  | .green => "32"
  | .yellow => "33"

/-- The sequence that sets effects. -/
def setting (effects : List Effect) : String :=
  "\x1b[" ++ ";".intercalate (effects.map Effect.number) ++ "m"

/-- A style, by the sequences that set it. -/
structure Style where
  settings : List (List Effect)
  deriving DecidableEq, Repr

namespace Style

/-- One effect. -/
def only (e : Effect) : Style := ⟨[[e]]⟩

/-- Effects that one sequence sets. -/
def together (effects : List Effect) : Style := ⟨[effects]⟩

/-- Effects that a sequence each sets. -/
def inTurn (effects : List Effect) : Style := ⟨effects.map fun e => [e]⟩

def wrap (style : Style) (text : String) : String :=
  String.join (style.settings.map setting) ++ text ++ "\x1b[0m"

end Style

/-- A text in a style, or as it is where there is no color. -/
def paint (color : Bool) (style : Style) (text : String) : String :=
  if color then style.wrap text else text

@[simp]
theorem paint_false (style : Style) (text : String) : paint false style text = text := rfl

end MarkerSweep.Text
