import MarkerSweep.CommandLine.Declared

/-!
# Help

What the program says about itself: in a few words, with each item on a line, or in full, with each
item in a paragraph. Both say which environment variables are set, and to what.
-/

namespace MarkerSweep.CommandLine

/-- The name and the version of the program. -/
def versionLine : String := "darkstrip 0.1.0\n"

namespace Help

open Text

def items : List Declared :=
  [.switch .verbose, .field .root, .field .extension, .field .marker, .switch .dryRun,
    .switch .json, .question (.help true), .question .version]

/-- What something is for. -/
def about (full : Bool) : Declared → String
  | .switch .verbose => "Enable verbose output"
  | .switch .dryRun => "Preview changes without writing them"
  | .switch .json => "Output the batch report as JSON"
  | .field .root => "Root directory to scan"
  | .field .extension => "File extension to process (leading dot optional)"
  | .field .marker => "Marker prefix of tokens to remove"
  | .question (.help _) =>
    if full then "Print help (see a summary with '-h')" else "Print help (see more with '--help')"
  | .question .version => "Print version"

/-- The names of something, the short one in front. -/
def names (color : Bool) (d : Declared) : String :=
  let short := match d.letter? with
    | some c => paint color Declared.style (String.ofList ['-', c]) ++ ", "
    | none => "    "
  let value := match d with
    | .field f => " " ++ f.placeholder
    | _ => ""
  short ++ paint color Declared.style ("--" ++ d.name) ++ value

def spaces (n : Nat) : String :=
  String.ofList (List.replicate n ' ')

/-- A text whose lines, after the first, start with spaces. -/
def hang (indent : Nat) (text : List Char) : String :=
  String.ofList (text.flatMap fun c =>
    if c = '\n' then c :: List.replicate indent ' ' else [c])

/-- What is said of the environment variable of an option, and of its standard value. -/
def origins (indent : Nat) (environment : PerField (Option Bytes)) (f : Field) : List String :=
  let value := hang indent (Utf8.lossy ((environment.get f).getD []))
  ["[env: " ++ f.variable ++ "=" ++ value ++ "]", "[default: " ++ f.standard ++ "]"]

/-- The column in which the words about an item start, on its line and in its paragraph. -/
def lineColumn : Nat := 25

/-- The column of the words about an item in its paragraph. -/
def paragraphColumn : Nat := 10

def line (environment : PerField (Option Bytes)) (d : Declared) : String :=
  let words :=
    about false d :: match d with
      | .field f => origins lineColumn environment f
      | _ => []
  "  " ++ names true d ++ spaces (lineColumn - 2 - (names false d).length) ++
    " ".intercalate words ++ "\n"

def paragraph (environment : PerField (Option Bytes)) (d : Declared) : String :=
  let words :=
    about true d :: match d with
      | .field f => "" :: origins paragraphColumn environment f
      | _ => []
  "  " ++ names true d ++ "\n" ++
    String.join (words.map fun line => spaces paragraphColumn ++ line ++ "\n")

def heading (text : String) : String :=
  (Style.inTurn [.bold, .underlined]).wrap text

/-- The line that says how the program is called, and the one above the items. -/
def usage : String :=
  heading "Usage:" ++ " " ++ Declared.style.wrap "darkstrip" ++ " [OPTIONS]\n\n" ++
    heading "Options:" ++ "\n"

def brief (environment : PerField (Option Bytes)) : String :=
  "Command-line interface for darkstrip\n\n" ++ usage ++
    String.join (items.map (line environment))

def full (environment : PerField (Option Bytes)) : String :=
  "Strip dark-mode utility classes (\x60dark:*\x60) from component sources\n\n" ++
    "Scans ROOT recursively for files with the given extension and removes every space-led " ++
    "token starting with the marker prefix, rewriting files in place.\n\n" ++
    "Examples: darkstrip                         # src/**/*.tsx, strip dark:* " ++
    "darkstrip --dry-run               # Report without writing " ++
    "darkstrip --root app --ext jsx    # Other tree and extension\n\n" ++ usage ++
    "\n".intercalate (items.map (paragraph environment))

end Help

/-- The answer to a question, as a terminal with color is told it. -/
def Question.answer (environment : PerField (Option Bytes)) : Question → String
  | .help false => Help.brief environment
  | .help true => Help.full environment
  | .version => versionLine

end MarkerSweep.CommandLine
