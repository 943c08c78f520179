import SexpEditing.Files.Task
import SexpEditing.Settings.Fields

/-!
# Settings files

A settings file is JSON with comments. Any reader of such texts will do.

## Main definitions

* `Settings.ofText`: the settings in a text, and the reports on what is ignored
* `Settings.load`: the settings in a file
-/

namespace SexpEditing.Settings

variable (parse : JsonParser)

/-- The settings in a text and the reports on what is ignored in it. A text that is refused has no
reports. -/
def ofText (t : Text) (file : Option Text) : Except SettingsError Settings × List LogEntry :=
  match parse t with
  | (some (.object members inherited root), []) =>
    let v := .object members inherited root
    (.ok (ofJson v), warningsOf v file)
  | (_, []) => (.error ⟨.notAnObject, file⟩, [])
  | (_, reports) => (.error ⟨.malformed reports, file⟩, [])

/-- Reads the settings in a file. -/
def load (file : Text) : FileTask (Except SettingsError Settings) := do
  match ← FileTask.read file with
  | .error cause => return .error ⟨.unreadable cause, some file⟩
  | .ok text =>
    let (settings, entries) := ofText parse text (some file)
    FileTask.logAll entries
    match settings with
    | .error e => return .error e
    | .ok settings =>
      FileTask.log (.verbose (Text.ofString "[settings] loaded " ++ file))
      return .ok settings

end SexpEditing.Settings
