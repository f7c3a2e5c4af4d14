import SpanReview.Json.Reading
import SpanReview.Settings.Basic

namespace SpanReview.Settings

/-!
Settings as they are written. A record is an object, in which fields may be missing and
other members are passed over, or an array of its fields in order, which may stop early.
A field that is there has to be of its type and may be there only once.
-/

open Json (Written Piece)

/-- The members of an object whose keys are among `names`. -/
def knownMembers (names : List String) :
    List (List Piece × Written) → Option (List (String × Written))
  | [] => some []
  | (key, value) :: rest =>
      match Json.stringOfPieces? key, knownMembers names rest with
      | some key, some others =>
          if names.contains key then
            if (others.lookup key).isSome then none else some ((key, value) :: others)
          else some others
      | _, _ => none

def fields? (names : List String) : Written → Option (List (String × Written))
  | .object members => knownMembers names members
  | .array items => if items.length ≤ names.length then some (names.zip items) else none
  | _ => none

def bool? : Written → Option Bool
  | .bool value => some value
  | _ => none

def string? : Written → Option String
  | .string pieces => Json.stringOfPieces? pieces
  | _ => none

def strings? : Written → Option (List String)
  | .array items => items.mapM string?
  | _ => none

/-- A field that is missing keeps its default. -/
def field? (fields : List (String × Written)) (name : String) (read : Written → Option α)
    (default : α) : Option α :=
  match fields.lookup name with
  | some value => read value
  | none => some default

def display? (value : Written) : Option DisplayOptions := do
  let fields ← fields? ["json", "show_token"] value
  let json ← field? fields "json" bool? DisplayOptions.off.json
  let showToken ← field? fields "show_token" bool? DisplayOptions.off.showToken
  return ⟨json, showToken⟩

def fieldNames : List String :=
  ["cases_dir", "case_extension", "fixture_root", "command", "display"]

def ofWritten? (value : Written) : Option Settings := do
  let fields ← fields? fieldNames value
  let casesDir ← field? fields "cases_dir" string? default.casesDir
  let caseExtension ← field? fields "case_extension" string? default.caseExtension
  let fixtureRoot ← field? fields "fixture_root" string? default.fixtureRoot
  let command ← field? fields "command" strings? default.command
  let display ← field? fields "display" display? default.display
  return ⟨casesDir, caseExtension, fixtureRoot, command, display⟩

def parse? (text : String) : Option Settings :=
  (Written.parse? text).bind ofWritten?

end SpanReview.Settings
