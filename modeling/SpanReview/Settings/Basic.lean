import SpanReview.Json.Printer
import SpanReview.Path
import SpanReview.Text.Blank

namespace SpanReview

/-!
What the operator can set: where cases and fixtures are, how tokens are made, and how the
current one is shown.
-/

structure DisplayOptions where
  json : Bool
  showToken : Bool
  deriving DecidableEq, Repr, Inhabited

inductive DisplayOption where
  | json
  | showToken
  deriving DecidableEq, Repr

def DisplayOption.name : DisplayOption → String
  | .json => "json"
  | .showToken => "show_token"

def DisplayOption.ofName? (text : String) : Option DisplayOption :=
  let word := Text.trim text
  if word = "json" then some .json
  else if word = "show_token" ∨ word = "show-token" ∨ word = "token" then some .showToken
  else none

namespace DisplayOptions

def off : DisplayOptions := ⟨false, false⟩

def get (options : DisplayOptions) : DisplayOption → Bool
  | .json => options.json
  | .showToken => options.showToken

def toggle (options : DisplayOptions) : DisplayOption → DisplayOptions
  | .json => { options with json := !options.json }
  | .showToken => { options with showToken := !options.showToken }

def toJson (options : DisplayOptions) : Json :=
  .object [("json", .bool options.json), ("show_token", .bool options.showToken)]

end DisplayOptions

structure Settings where
  casesDir : Path
  caseExtension : String
  fixtureRoot : Path
  command : List String
  display : DisplayOptions
  deriving DecidableEq, Repr

namespace Settings

def default : Settings :=
  ⟨"packages/pug-lexer/test/cases", "pug", "save", [], .off⟩

def toJson (settings : Settings) : Json :=
  .object [("cases_dir", .string settings.casesDir),
    ("case_extension", .string settings.caseExtension),
    ("fixture_root", .string settings.fixtureRoot),
    ("command", .strings settings.command),
    ("display", settings.display.toJson)]

def text (settings : Settings) : String :=
  settings.toJson.pretty

end Settings

inductive SettingsError where
  | inaccessible (path : Path)
  | invalid (path : Path)
  | unknownOption (name : String)
  deriving DecidableEq, Repr

def SettingsError.message : SettingsError → String
  | .inaccessible path => "failed to read settings " ++ path
  | .invalid path => "invalid settings " ++ path
  | .unknownOption name =>
      "unknown display option '" ++ name ++ "' (expected 'json' or 'show_token')"

end SpanReview
