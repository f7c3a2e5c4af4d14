import SpanReview.Disk.Basic
import SpanReview.Settings.Reading

namespace SpanReview.Settings

/-!
The settings file. Without a file all settings have their defaults.
-/

def defaultFile : Path := "locfix.json"

def load (path : Path) (disk : Disk) : Except SettingsError Settings :=
  match disk.readText path with
  | .error .missing => .ok default
  | .error _ => .error (.inaccessible path)
  | .ok content =>
      match parse? content with
      | some settings => .ok settings
      | none => .error (.invalid path)

def save (settings : Settings) (path : Path) (disk : Disk) : Except SettingsError Unit × Disk :=
  match disk.writeText path settings.text with
  | (.ok (), disk) => (.ok (), disk)
  | (.error _, disk) => (.error (.inaccessible path), disk)

/-- Stores display options in the settings file; a file that has them already is left alone. -/
def storeDisplay (path : Path) (display : DisplayOptions) (disk : Disk) :
    Except SettingsError Unit × Disk :=
  match load path disk with
  | .error e => (.error e, disk)
  | .ok stored =>
      if stored.display = display then (.ok (), disk)
      else { stored with display := display }.save path disk

end SpanReview.Settings
