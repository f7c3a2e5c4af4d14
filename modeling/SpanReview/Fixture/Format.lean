import SpanReview.Fixture.Basic
import SpanReview.Json.Reading

namespace SpanReview.Fixture

/-!
The text of a fixture: a header line, then one line for each record. A record line holds
the filename and four numbers between commas and is read from its end, so that a filename
may hold commas; a line for no record is empty.
-/

def recordChars (span : Span) : List Char :=
  (span.filename ++ "," ++ Text.intText span.start.line ++ "," ++ Text.intText span.start.column ++
    "," ++ Text.intText span.finish.line ++ "," ++ Text.intText span.finish.column).toList

def lineChars : Option Span → List Char
  | some span => recordChars span
  | none => []

def textChars (key : FixtureKey) (records : List (Option Span)) : List Char :=
  key.header.toList ++ '\n' :: records.flatMap fun record => lineChars record ++ ['\n']

def textOf (key : FixtureKey) (records : List (Option Span)) : String :=
  String.ofList (textChars key records)

def text (fixture : Fixture) : String :=
  textOf fixture.key fixture.records

def dropReturn (line : List Char) : List Char :=
  if line.getLast? = some '\r' then line.dropLast else line

/-- The lines of a text; what follows the last line feed is a line only if it is not empty. -/
def linesOf (content : List Char) : List (List Char) :=
  let pieces := content.splitOn '\n'
  let pieces := if content.getLast? = some '\n' then pieces.dropLast else pieces
  pieces.map dropReturn

def cutLast (line : List Char) : Option (List Char) × List Char :=
  let last := (line.reverse.takeWhile (· != ',')).reverse
  match line.reverse.dropWhile (· != ',') with
  | [] => (none, last)
  | _ :: before => (some before.reverse, last)

def takeNumber (field : RecordField) :
    Option (List Char) → Except LineFlaw (Option (List Char) × Int)
  | none => .error (.missing field)
  | some line =>
      let (before, last) := cutLast line
      match Text.integer? (Text.trimChars last) with
      | some n => .ok (before, n)
      | none => .error (.invalid field (String.ofList last))

def parseRecord (line : List Char) : Except LineFlaw (Option Span) :=
  if line.isEmpty then .ok none
  else do
    let (rest, endColumn) ← takeNumber .endColumn (some line)
    let (rest, endLine) ← takeNumber .endLine rest
    let (rest, startColumn) ← takeNumber .startColumn rest
    let (rest, startLine) ← takeNumber .startLine rest
    match rest with
    | some filename =>
        .ok (some ⟨String.ofList filename, ⟨startLine, startColumn⟩, ⟨endLine, endColumn⟩⟩)
    | none => .error .missingFilename

def parseRecords (path : Path) : (line : Nat) → List (List Char) →
    Except FixtureError (List (Option Span))
  | _, [] => .ok []
  | line, record :: rest =>
      match parseRecord record with
      | .error flaw => .error (.malformed path line flaw)
      | .ok span =>
          match parseRecords path (line + 1) rest with
          | .error e => .error e
          | .ok spans => .ok (span :: spans)

/-- Reads a fixture; its header has to name the key. `path` is only for messages. -/
def parse (key : FixtureKey) (content : String) (path : Path) : Except FixtureError Fixture :=
  match linesOf content.toList with
  | [] => .error (.malformed path 1 .badHeader)
  | header :: records =>
      match (Json.parse? (String.ofList header)).bind Json.strings? with
      | none => .error (.malformed path 1 .badHeader)
      | some found =>
          if found = key.fields then
            match parseRecords path 2 records with
            | .error e => .error e
            | .ok records => .ok ⟨key, records⟩
          else .error (.corrupt path key.header (String.ofList header))

end SpanReview.Fixture
