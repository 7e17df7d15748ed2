import MarkerSweep.Proofs.Json.Reader
import MarkerSweep.Report

/-!
# What the JSON text of a report tells

`toJson_lossless`: whoever reads the text of a report finds in it all that the report says, of each
file its path as it is displayed and its outcome, in the order of the run.
-/

namespace MarkerSweep

/-! ### Values by their names -/

namespace Json

def field? (name : String) : Json → Option Json
  | .object fields => fields.lookup name
  | _ => none

def bool? : Json → Option Bool
  | .bool b => some b
  | _ => none

def number? : Json → Option Nat
  | .number n => some n
  | _ => none

def text? : Json → Option String
  | .text s => some s
  | _ => none

def items? : Json → Option (List Json)
  | .list items => some items
  | _ => none

theorem compactItems_eq_map (items : List Json) : compactItems items = items.map compact := by
  induction items with
  | nil => rfl
  | cons item rest ih => rw [compactItems, List.map_cons, ih]

end Json

/-! ### Reports -/

/-- What a report says, with paths as they are displayed. -/
structure Report.Content where
  dryRun : Bool
  files : List (String × Outcome)
  tally : Tally
  deriving DecidableEq, Repr

/-- What became of each file, by the path that is displayed. -/
def Report.files (r : Report) : List (String × Outcome) :=
  r.entries.map fun e => (e.path.display, e.outcome)

def Report.content (r : Report) : Report.Content :=
  ⟨r.dryRun, r.files, r.tally⟩

namespace Json

def outcome? (v : Json) : Option Outcome := do
  let status ← (← v.field? "status").text?
  if status = "processed" then return .processed (← (← v.field? "removed").number?)
  else if status = "unchanged" then return .unchanged
  else if status = "failed" then return .failed (← (← v.field? "error").text?)
  else none

def file? (v : Json) : Option (String × Outcome) := do
  return (← (← v.field? "path").text?, ← v.outcome?)

def tally? (v : Json) : Option Tally := do
  return ⟨← (← v.field? "processed").number?, ← (← v.field? "unchanged").number?,
    ← (← v.field? "failed").number?, ← (← v.field? "total").number?⟩

def content? (v : Json) : Option Report.Content := do
  let files ← (← v.field? "files").items?
  return ⟨← (← v.field? "dry_run").bool?, ← files.mapM file?, ← (← v.field? "summary").tally?⟩

theorem file?_toJson (e : Entry) : e.toJson.file? = some (e.path.display, e.outcome) := by
  obtain ⟨path, outcome⟩ := e
  cases outcome with
  | processed removed => rfl
  | unchanged => rfl
  | failed error => rfl

theorem content?_toJson (r : Report) : r.toJson.content? = some r.content := by
  have hfiles : (r.entries.map Entry.toJson).mapM file? = some r.files := by
    unfold Report.files
    induction r.entries with
    | nil => rfl
    | cons e rest ih => simp [file?_toJson, ih]
  show (do return (⟨r.dryRun, ← (r.entries.map Entry.toJson).mapM file?, r.tally⟩ :
    Report.Content)) = some r.content
  rw [hfiles]
  rfl

end Json

namespace Report

/-- The text without white space, up to the entries and from them on. -/
theorem compact_toJson (r : Report) :
    r.toJson.compact =
      "\x7b\"dry_run\":".toList ++ Json.writeBool r.dryRun ++ ",\"files\":[".toList
        ++ Json.commaSeparated (r.entries.map fun e => e.toJson.compact)
        ++ "],\"summary\":".toList ++ r.tally.toJson.compact ++ "\x7d".toList := by
  have hentries : Json.compactItems (r.entries.map Entry.toJson) =
      r.entries.map fun e => e.toJson.compact := by
    rw [Json.compactItems_eq_map, List.map_map]
    rfl
  have hstart : "\x7b\"dry_run\":".toList = '\x7b' :: (Json.quote "dry_run" ++ [':']) := rfl
  have hfiles : ",\"files\":[".toList = ',' :: (Json.quote "files" ++ [':', '[']) := rfl
  have hsummary : "],\"summary\":".toList = ']' :: ',' :: (Json.quote "summary" ++ [':']) := rfl
  have hstop : "\x7d".toList = ['\x7d'] := rfl
  rw [← hentries, hstart, hfiles, hsummary, hstop]
  simp only [toJson, Json.compact, Json.compactFields, Json.commaSeparated,
    List.intercalate_cons_cons, List.intercalate_singleton, List.append_assoc, List.cons_append,
    List.nil_append]

theorem content_eq_of_texts {r r' : Report}
    (h : r'.toJson.pretty = r.toJson.pretty ∨ r'.toJson.compact = r.toJson.compact) :
    r'.content = r.content := by
  have hvalue : some r'.toJson = some r.toJson := by
    rcases h with h | h
    · rw [← Json.read?_pretty r'.toJson, h, Json.read?_pretty]
    · rw [← Json.read?_compact r'.toJson, h, Json.read?_compact]
  have hcontent := Json.content?_toJson r'
  rw [Option.some.inj hvalue, Json.content?_toJson] at hcontent
  exact (Option.some.inj hcontent).symm

/-- The JSON text of a report keeps all that the report says: it is laid out from the tokens of a
value, which is read back as what the report says, and it is the compact text but for the white
space, in which the texts of the entries stand in order. -/
theorem toJson_lossless (r : Report) :
    (Json.Laid r.toJson.tokens r.toJson.pretty ∧
      (Json.read? r.toJson.pretty).bind Json.content? = some r.content) ∧
    (Json.unspaced r.toJson.pretty = r.toJson.compact ∧
      r.toJson.compact =
        "\x7b\"dry_run\":".toList ++ Json.writeBool r.dryRun ++ ",\"files\":[".toList
          ++ Json.commaSeparated (r.entries.map fun e => e.toJson.compact)
          ++ "],\"summary\":".toList ++ r.tally.toJson.compact ++ "\x7d".toList) ∧
    ∀ r' : Report, r'.toJson.pretty = r.toJson.pretty ∨ r'.toJson.compact = r.toJson.compact →
      r'.dryRun = r.dryRun ∧ r'.files = r.files := by
  refine ⟨⟨r.toJson.laid_pretty, ?_⟩, ⟨r.toJson.unspaced_pretty, r.compact_toJson⟩, ?_⟩
  · rw [Json.read?_pretty, Option.bind_some, Json.content?_toJson]
  · intro r' h
    have hcontent := content_eq_of_texts h
    exact ⟨congrArg Content.dryRun hcontent, congrArg Content.files hcontent⟩

/-- Paths with one display make for one text, and so they agree in what it tells. -/
theorem files_of_one_text :
    let error := "cannot read \"a\\b\":\n],\"summary\":\x7b\x7d"
    let r : Report := ⟨true, [⟨⟨[0xFF]⟩, .failed error⟩, ⟨.ofString "b", .processed 3⟩]⟩
    let r' : Report :=
      ⟨true, [⟨.ofString "\uFFFD", .failed error⟩, ⟨.ofString "b", .processed 3⟩]⟩
    r'.toJson.pretty = r.toJson.pretty ∧ r'.entries ≠ r.entries ∧ r'.files = r.files := by
  intro error r r'
  have htext : r'.toJson.pretty = r.toJson.pretty := by decide +kernel
  exact ⟨htext, by decide +kernel, ((toJson_lossless r).2.2 r' (.inl htext)).2⟩

end Report

end MarkerSweep
