import SexpEditing.Catalog.Scan

/-!
# The symbol catalogue

The catalogue holds the names of one finished scan. While a scan is under way, look-ups see the
names from before; requests for a build join the scan. When a scan has come to its end, the
catalogue first takes over the names that it found. Only after that the build is over, those who
requested it get its counts, and the next request starts another scan.

## Main definitions

* `CatalogScan`, `Catalog`: a scan under way; settings, names, and the scans under way, of which
  there is at most one
* `Catalog.requestBuild`, `Catalog.deliver`, `Catalog.takeOver`, `Catalog.settle`: what happens in
  the course of a build, one after the other
* `Catalog.Occurrence`, `Catalog.step`: any of these
* `Catalog.build`: a whole build on a file system, without interruption
* `Catalog.has`, `Catalog.names`, `Catalog.classify`: look-ups
-/

namespace SexpEditing

/-- A scan that was started and is not settled yet. -/
structure CatalogScan where
  /-- Scans are numbered in the order in which they are started. -/
  number : Nat
  /-- What is left of it, from its next read on. -/
  task : FileTask (CatalogSnapshot × CatalogStats)
  /-- Whether the catalogue took over what it found. -/
  takenOver : Bool

/-- A symbol catalogue. -/
structure Catalog where
  settings : CatalogSettings
  /-- The prefixes of the categories that the settings inherit. -/
  inherited : List (SymbolCategory × RankedPrefix)
  snapshot : CatalogSnapshot
  /-- How many scans were started so far. -/
  started : Nat
  /-- The scans that were started and are not settled yet. -/
  scans : List CatalogScan
  /-- The number of the scan that requests for a build join, if there is one. -/
  pending : Option Nat
  /-- No scan is under way but the one that requests join. -/
  numbers_eq : scans.map CatalogScan.number = pending.toList

namespace Catalog

/-- A catalogue without names, whose settings inherit no prefixes. -/
def ofSettings (s : CatalogSettings) : Catalog := ⟨s, [], .empty, 0, [], none, rfl⟩

/-- How names outside the catalogue are classified. -/
def prefixRules (c : Catalog) : PrefixRules := c.settings.prefixRules c.inherited

/-- Whether a build is pending. -/
def building (c : Catalog) : Bool := c.pending.isSome

/-- The names of a category, sorted. -/
def names (c : Catalog) (category : SymbolCategory) : List Text := c.snapshot.names category

/-- Whether a name belongs to a category or, if none is given, to any. -/
def has (c : Catalog) (name : Text) (category : Option SymbolCategory) : Bool :=
  match category with
  | some category => c.snapshot.contains category name
  | none => SymbolCategory.all.any fun category => c.snapshot.contains category name

/-- The category of a name: the first one that holds it, or else the one that its prefix
suggests. -/
def classify (c : Catalog) (name : Text) : Option SymbolCategory :=
  (SymbolCategory.all.find? fun category => c.snapshot.contains category name).or
    (c.prefixRules.classify name)

/-! ### The course of a build -/

theorem pending_eq_none_iff {c : Catalog} : c.pending = none ↔ c.scans = [] := by
  rw [← Option.toList_eq_nil_iff, ← c.numbers_eq, List.map_eq_nil_iff]

theorem exists_scan_of_pending {c : Catalog} {number : Nat} (h : c.pending = some number) :
    ∃ scan, c.scans = [scan] ∧ scan.number = number :=
  List.map_eq_singleton_iff.mp (c.numbers_eq.trans (congrArg Option.toList h))

/-- A scan under way is the only one, and the one that requests join. -/
theorem eq_of_mem_scans {c : Catalog} {scan : CatalogScan} (h : scan ∈ c.scans) :
    c.scans = [scan] ∧ c.pending = some scan.number := by
  cases hpending : c.pending with
  | none =>
    rw [pending_eq_none_iff.mp hpending] at h
    cases h
  | some number =>
    obtain ⟨only, hscans, rfl⟩ := exists_scan_of_pending hpending
    rw [hscans, List.mem_singleton] at h
    exact ⟨h ▸ hscans, congrArg (some ∘ CatalogScan.number) h.symm⟩

/-- A catalogue with one scan under way, which requests join. -/
def withScan (c : Catalog) (scan : CatalogScan) : Catalog :=
  { c with scans := [scan], pending := some scan.number, numbers_eq := rfl }

@[simp] theorem scans_withScan (c : Catalog) (scan : CatalogScan) :
    (c.withScan scan).scans = [scan] := rfl

/-- A catalogue without a scan under way. -/
def withoutScan (c : Catalog) : Catalog :=
  { c with scans := [], pending := none, numbers_eq := rfl }

/-- The scan with a number, if it is under way. -/
def scan? (c : Catalog) (number : Nat) : Option CatalogScan :=
  c.scans.find? fun scan => scan.number == number

theorem mem_of_scan? {c : Catalog} {number : Nat} {scan : CatalogScan}
    (h : c.scan? number = some scan) : scan ∈ c.scans ∧ scan.number = number :=
  ⟨List.mem_of_find?_eq_some h, by simpa using List.find?_some h⟩

/-- Without the scan with a number, none is left. -/
theorem filter_scans_of_scan? {c : Catalog} {number : Nat} {scan : CatalogScan}
    (h : c.scan? number = some scan) : (c.scans.filter fun s => s.number != number) = [] := by
  obtain ⟨hmem, rfl⟩ := mem_of_scan? h
  simp [(eq_of_mem_scans hmem).1]

/-- Changes the scan with a number, but not its number. -/
def changeScan (c : Catalog) (number : Nat) (f : CatalogScan → CatalogScan)
    (hf : ∀ scan, (f scan).number = scan.number) : Catalog :=
  { c with
    scans := c.scans.map fun scan => if scan.number = number then f scan else scan
    numbers_eq := by
      rw [← c.numbers_eq, List.map_map]
      refine List.map_congr_left fun scan _ => ?_
      rw [Function.comp_apply]
      split
      · exact hf scan
      · rfl }

/-- Joins the build that is pending, or starts a scan. Answers the number of the scan. -/
def requestBuild (c : Catalog) : Catalog × Nat × List LogEntry :=
  match h : c.pending with
  | some number => (c, number, [])
  | none =>
    let (task, entries) := c.settings.scan.advance
    ({ c with
        started := c.started + 1
        scans := c.scans ++ [⟨c.started, task, false⟩]
        pending := some c.started
        numbers_eq := by
          rw [List.map_append, c.numbers_eq, h]
          rfl },
      c.started, entries)

/-- Gives an answer to the read for which a scan waits. -/
def deliver (c : Catalog) (number : Nat) (answer : ReadAnswer) : Catalog × List LogEntry :=
  match c.scan? number with
  | none => (c, [])
  | some scan =>
    let (task, entries) := scan.task.resume answer
    (c.changeScan number (fun scan => { scan with task }) fun _ => rfl, entries)

/-- Takes over the names of a scan that has come to its end. -/
def takeOver (c : Catalog) (number : Nat) : Catalog :=
  match c.scan? number with
  | some ⟨_, .done (snapshot, _), false⟩ =>
    { c.changeScan number (fun scan => { scan with takenOver := true }) fun _ => rfl with snapshot }
  | _ => c

/-- Ends a build after the names of its scan were taken over. Answers the counts of the scan, for
all who were given its number. -/
def settle (c : Catalog) (number : Nat) : Catalog × Option CatalogStats :=
  match h : c.scan? number with
  | some ⟨_, .done (_, stats), true⟩ =>
    ({ c with
        scans := c.scans.filter fun scan => scan.number != number
        pending := none
        numbers_eq := congrArg (List.map CatalogScan.number) (filter_scans_of_scan? h) },
      some stats)
  | _ => (c, none)

/-- What can happen to a catalogue. The files may change at any time, so any answer may be given to
a read. -/
inductive Occurrence
  | request
  | answer (number : Nat) (answer : ReadAnswer)
  | takeOver (number : Nat)
  | settle (number : Nat)

/-- What those who requested a build are told. -/
inductive Reply
  | nothing
  /-- A request is given the number of a scan. -/
  | joined (number : Nat)
  /-- The build with a number is over. -/
  | settled (number : Nat) (stats : CatalogStats)
deriving DecidableEq, Repr

/-- One occurrence. -/
def step (c : Catalog) : Occurrence → Catalog × Reply × List LogEntry
  | .request =>
    let (c, number, entries) := c.requestBuild
    (c, .joined number, entries)
  | .answer number answer =>
    let (c, entries) := c.deliver number answer
    (c, .nothing, entries)
  | .takeOver number => (c.takeOver number, .nothing, [])
  | .settle number =>
    match c.settle number with
    | (c, some stats) => (c, .settled number stats, [])
    | (c, none) => (c, .nothing, [])

/-- What is left of the scan that a request for a build joins or starts. -/
def requestedTask (c : Catalog) : FileTask (CatalogSnapshot × CatalogStats) :=
  match c.pending.bind c.scan? with
  | some scan => scan.task
  | none => c.settings.scan

/-- Builds the catalogue anew on a file system, while nothing else happens. A scan that is under way
is carried to its end instead of starting another one. -/
def build (c : Catalog) (fs : FileSystem) : Catalog × CatalogStats × List FileEvent :=
  let ((snapshot, stats), events) := c.requestedTask.run fs
  ({ c.requestBuild.1.withoutScan with snapshot }, stats, events)

end Catalog

end SexpEditing
