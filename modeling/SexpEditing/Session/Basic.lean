import SexpEditing.Catalog.Basic
import SexpEditing.Indent.Indenter
import SexpEditing.Settings.File

/-!
# Editing sessions

A session holds the settings of an editor and what is derived from them: the rule table and the
symbol catalogue. New settings replace only the parts that they change.

## Main definitions

* `Session.ofSettings`, `Session.activate`: a session without symbols, and one that is started from
  a settings file
* `Session.reconfigure`: new settings
* `Session.rebuild`: a new scan for symbols
-/

namespace SexpEditing

/-- A session. -/
structure Session where
  settings : Settings
  /-- The rule table of the settings. -/
  table : IndentTable
  catalog : Catalog

/-- What new settings change. -/
structure SettingsChange where
  /-- Whether anything changes. -/
  changed : Bool
  /-- Whether the rule table is kept. -/
  tableKept : Bool
  /-- Whether the catalogue is kept, with its names. -/
  catalogKept : Bool
deriving DecidableEq, Repr

namespace Session

/-- The catalogue of settings, still without names. -/
def emptyCatalog (s : Settings) : Catalog :=
  { Catalog.ofSettings s.catalog with inherited := s.background.prefixes }

/-- A session whose catalogue is still without names. -/
def ofSettings (s : Settings) : Session := ⟨s, s.indent.table, emptyCatalog s⟩

/-- What the log of a session is told of new settings, next to the old ones. -/
def changeEntries (cmp : SettingsComparison) (old new : Settings) : List LogEntry :=
  (if cmp.log old new then [] else [.setup new.logLevel]) ++
    (if cmp.catalog old new then []
      else [.verbose (Text.ofString "[session] catalog settings changed")])

/-- Takes over new settings, unless they are equal to the old ones. The rule table and the catalogue
are made anew if their settings changed; a new catalogue has no names until it is built. -/
def reconfigure (s : Session) (cmp : SettingsComparison) (new : Settings) :
    Session × SettingsChange × List LogEntry :=
  let old := s.settings
  if cmp.whole old new then (s, ⟨false, true, true⟩, [])
  else
    ({ settings := new
       table := if cmp.indent old new then s.table else new.indent.table
       catalog := if cmp.catalog old new then s.catalog else emptyCatalog new },
      ⟨true, cmp.indent old new, cmp.catalog old new⟩, changeEntries cmp old new)

/-- Scans for symbols anew. -/
def rebuild (s : Session) (fs : FileSystem) : Session × CatalogStats × List FileEvent :=
  let (catalog, stats, events) := s.catalog.build fs
  ({ s with catalog }, stats, events)

/-- Starts a session: reads the settings file, if there is one, and scans for symbols. -/
def activate (parse : JsonParser) (file : Option Text) :
    FileTask (Except SettingsError Session) := do
  let loaded ← match file with
    | none | some [] => pure (Except.ok Settings.standard)
    | some file => Settings.load parse file
  match loaded with
  | .error e => return .error e
  | .ok settings =>
    FileTask.log (.setup settings.logLevel)
    let session := ofSettings settings
    let (snapshot, stats) ← settings.catalog.scan
    FileTask.log (.verbose (Text.ofString "[session] started with " ++ Text.ofInt stats.symbols ++
      Text.ofString " symbols"))
    return .ok { session with catalog := { session.catalog with snapshot } }

/-- The lists around an offset of a document. -/
def contexts (s : Session) (d : Document) (offset : Int) : ContextPair :=
  (Navigator.ofDocument d s.table.maxSteps).contexts offset

/-- Indents the line of an offset. -/
def indentLine (s : Session) (d : Document) (offset : Int) : Document × Except DocumentError Int :=
  d.indentLine offset s.table

/-- Indents the lines from one to another. -/
def indentRegion (s : Session) (d : Document) (first last : Int) :
    Document × Except DocumentError Nat :=
  d.indentRegion first last s.table

/-- Breaks the line at an offset and indents the new one. -/
def newlineAndIndent (s : Session) (d : Document) (offset : Int) :
    Document × Except DocumentError Int :=
  d.newlineAndIndent offset s.table

/-- The category of a name. -/
def classify (s : Session) (name : Text) : Option SymbolCategory := s.catalog.classify name

end Session

end SexpEditing
