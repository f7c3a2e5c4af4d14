import SpanReview.Json.Printer
import SpanReview.Path
import SpanReview.Repository
import SpanReview.Span.Basic
import SpanReview.Stage

namespace SpanReview

/-!
The recorded spans of one case file, and what they are recorded for.
-/

structure FixtureKey where
  repository : Repository
  stage : Stage
  file : String
  deriving DecidableEq, Repr

namespace FixtureKey

def fields (key : FixtureKey) : List String :=
  [key.repository.url, key.repository.branch, key.stage.name, key.file]

def header (key : FixtureKey) : String :=
  (Json.strings key.fields).compact

end FixtureKey

/-- One record for each node from the first; none where nothing is expected yet. -/
structure Fixture where
  key : FixtureKey
  records : List (Option Span)
  deriving DecidableEq, Repr

namespace Fixture

def record? (fixture : Fixture) (position : Nat) : Option Span :=
  (fixture.records[position]?).join

def expectedAt (fixture : Fixture) (position : Nat) : Span :=
  (fixture.record? position).getD Span.sentinel

end Fixture

/-- The numbers of a record, from the last in its line to the first. -/
inductive RecordField where
  | endColumn
  | endLine
  | startColumn
  | startLine
  deriving DecidableEq, Repr

def RecordField.name : RecordField → String
  | .endColumn => "end column"
  | .endLine => "end line"
  | .startColumn => "start column"
  | .startLine => "start line"

inductive LineFlaw where
  | badHeader
  | missing (field : RecordField)
  | invalid (field : RecordField) (text : String)
  | missingFilename
  deriving DecidableEq, Repr

def LineFlaw.message : LineFlaw → String
  | .badHeader => "invalid header"
  | .missing field => "missing " ++ field.name
  | .invalid field text => "invalid " ++ field.name ++ " '" ++ text ++ "'"
  | .missingFilename => "missing filename"

inductive FixtureError where
  | inaccessible (path : Path)
  | corrupt (path : Path) (expected found : String)
  | malformed (path : Path) (line : Nat) (flaw : LineFlaw)
  deriving DecidableEq, Repr

def FixtureError.message : FixtureError → String
  | .inaccessible path => "failed to access fixture " ++ path
  | .corrupt path expected found =>
      "fixture " ++ path ++ " belongs to " ++ found ++ ", not " ++ expected
  | .malformed path line flaw =>
      "malformed fixture " ++ path ++ " at line " ++ Text.natText line ++ ": " ++ flaw.message

end SpanReview
