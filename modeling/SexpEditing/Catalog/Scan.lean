import SexpEditing.Catalog.Settings
import SexpEditing.Catalog.Walk
import SexpEditing.Symbol.Declarations
import SexpEditing.Symbol.Definitions

/-!
# Scanning files for symbols

A scan searches the roots for declaration files and source files, then reads them one by one and
collects the names that they define. A file that cannot be read, or not be parsed, is reported and
skipped whole.

## Main definitions

* `CatalogStats`, `CatalogSnapshot`: what a scan counts and what it finds
* `ScanProgress`: what was found so far
* `CatalogSettings.scan`: a whole scan
-/

namespace SexpEditing

/-- What a scan counts. -/
structure CatalogStats where
  /-- Files that were read. -/
  files : Nat
  /-- Directories and files that could not be read. -/
  unreadable : Nat
  /-- Malformed declaration records. -/
  skippedRecords : Nat
  /-- The names of each category, counted over all categories. -/
  symbols : Nat
deriving DecidableEq, Repr

/-- The names in the files, by category. -/
structure CatalogSnapshot where
  /-- The names of a category, sorted. -/
  names : SymbolCategory → List Text
  /-- The names of a category in the order in which they were found. -/
  found : SymbolCategory → List Text

namespace CatalogSnapshot

/-- No names. -/
def empty : CatalogSnapshot := ⟨fun _ => [], fun _ => []⟩

/-- The snapshot of names as they were found, in which a name may stand several times. -/
def ofFound (found : List (SymbolCategory × Text)) : CatalogSnapshot :=
  let distinct c := ((found.filter fun entry => entry.1 == c).map Prod.snd).eraseDups
  ⟨fun c => Text.sort (distinct c), distinct⟩

/-- Whether a name belongs to a category. -/
def contains (s : CatalogSnapshot) (c : SymbolCategory) (name : Text) : Bool :=
  (s.found c).contains name

/-- The number of names, counted over all categories. -/
def size (s : CatalogSnapshot) : Nat :=
  SymbolCategory.all.foldl (fun n c => n + (s.found c).length) 0

end CatalogSnapshot

/-- What a scan found so far. -/
structure ScanProgress where
  found : List (SymbolCategory × Text)
  files : Nat
  unreadable : Nat
  skippedRecords : Nat
deriving DecidableEq, Repr

namespace ScanProgress

/-- Counts a file that was read, and adds the names in it. -/
def addFile (p : ScanProgress) (entries : List (SymbolCategory × Text)) : ScanProgress :=
  { p with found := p.found ++ entries, files := p.files + 1 }

/-- Counts a file that could not be read. -/
def addUnreadable (p : ScanProgress) : ScanProgress := { p with unreadable := p.unreadable + 1 }

/-- The report on a file that is skipped. -/
def skippedFile (file cause : Text) : LogEntry :=
  .warn (Text.ofString "[catalog] skipping " ++ file ++ Text.ofString ": " ++ cause)

/-- The report on malformed records in a file, if there are any. -/
def skippedRecordsIn (file : Text) (skipped : Nat) : List LogEntry :=
  if skipped = 0 then []
  else
    [.warn (Text.ofString "[catalog] " ++ file ++ Text.ofString ": skipped " ++
      Text.ofInt skipped ++ Text.ofString " malformed record(s)")]

/-- Reads declaration files. -/
def readDeclarations (starts : List Text) (p : ScanProgress) : List Text → FileTask ScanProgress
  | [] => .done p
  | file :: rest =>
    .contents file fun answer =>
      let scanned := answer.bind fun text =>
        (Declarations.ofText text starts).mapError ExprError.message
      match scanned with
      | .error cause =>
        .report (skippedFile file cause) (readDeclarations starts p.addUnreadable rest)
      | .ok ⟨names, skipped⟩ =>
        (FileTask.logAll (skippedRecordsIn file skipped)).bind fun _ =>
          readDeclarations starts
            { p.addFile (names.map fun name => (.functions, name)) with
              skippedRecords := p.skippedRecords + skipped }
            rest

/-- Reads source files. -/
def readSources (p : ScanProgress) : List Text → FileTask ScanProgress
  | [] => .done p
  | file :: rest =>
    .contents file fun
      | .error cause => .report (skippedFile file cause) (readSources p.addUnreadable rest)
      | .ok text =>
        readSources
          (p.addFile ((SourceDefinition.ofText text).map fun d => (d.category, d.name))) rest

/-- The snapshot of the names that were found. -/
def snapshot (p : ScanProgress) : CatalogSnapshot := .ofFound p.found

/-- The counts of a finished scan. -/
def stats (p : ScanProgress) : CatalogStats :=
  ⟨p.files, p.unreadable, p.skippedRecords, p.snapshot.size⟩

/-- The report on a finished scan. -/
def summary (p : ScanProgress) : LogEntry :=
  let counts := SymbolCategory.all.map fun c =>
    Text.ofString (c.friendlyName ++ ": ") ++ Text.ofInt (p.snapshot.names c).length
  .log (Text.ofString "[catalog] " ++ List.intercalate (Text.ofString ", ") counts ++
    Text.ofString " from " ++ Text.ofInt p.files ++ Text.ofString " file(s)")

end ScanProgress

/-- The report on the files that a scan is about to read. -/
def scanAnnouncement (docs sources : FoundFiles) : LogEntry :=
  .verbose (Text.ofString "[catalog] scanning " ++ Text.ofInt docs.files.length ++
    Text.ofString " declaration files, " ++ Text.ofInt sources.files.length ++
    Text.ofString " source files")

/-- A whole scan: the names in all files below the roots, and the counts. -/
def CatalogSettings.scan (s : CatalogSettings) : FileTask (CatalogSnapshot × CatalogStats) := do
  let docs ← FoundFiles.ofRoots s.docExtensions s.rootLevels s.docRoots
  let sources ← FoundFiles.ofRoots s.sourceExtensions s.rootLevels s.sourceRoots
  FileTask.log (scanAnnouncement docs sources)
  let p : ScanProgress := ⟨[], 0, docs.unreadable + sources.unreadable, 0⟩
  let p ← p.readDeclarations s.docPrefixes docs.files
  let p ← p.readSources sources.files
  FileTask.log p.summary
  return (p.snapshot, p.stats)

end SexpEditing
