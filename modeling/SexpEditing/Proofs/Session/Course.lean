import SexpEditing.Json.Parser
import SexpEditing.Proofs.Catalog.Steps
import SexpEditing.Proofs.Files.Writing
import SexpEditing.Session.Basic

/-!
# The course of a session

A session is started from a settings file. After that it may be given new settings, and its
catalogue may be built, at any time. New settings may replace the catalogue while a scan is under
way; that scan goes on, but it belongs to a catalogue that nobody looks into any more. Whatever the
order in which all this happens, what a session derives from its settings belongs to the settings
that it has now.

## Main definitions

* `Session.Occurrence`, `Session.Course`: what can happen to a session, and how it stands after that
* `Catalog.Faithful`: the names of a catalogue are those of a scan under its settings
* `Session.Course.UpToDate`: what is derived belongs to the settings

## Main results

* `CatalogSettings.quiet_scan`: only the session sets up the log
* `Session.Course.upToDate_of_activate`, `Session.Course.UpToDate.step`: the start, and one
  occurrence
* `Session.reflects_settings`: every course
-/

namespace SexpEditing

open FileTask LogEntry

/-! ### Only the session sets up the log -/

theorem FoundFiles.quiet_walk (extensions : List Text) (found : FoundFiles)
    (stack : List PendingDirectory) : (walk extensions found stack).Quiet := by
  induction found, stack using walk.induct extensions with
  | case1 found =>
    rw [walk]
    exact .done found
  | case2 found dir rest ihError ihOk =>
    rw [walk]
    refine .listing fun answer => ?_
    cases answer with
    | error cause => exact .report _ _ ihError
    | ok entries => exact ihOk entries

theorem FileTask.quiet_logAll {entries : List LogEntry} (h : setups entries = []) :
    (logAll entries).Quiet := by
  induction entries with
  | nil => exact .done ()
  | cons entry entries ih =>
    cases entry with
    | setup level => cases h
    | message severity text => exact .report severity text (ih h)

namespace ScanProgress

theorem quiet_readDeclarations (starts : List Text) (p : ScanProgress) (files : List Text) :
    (p.readDeclarations starts files).Quiet := by
  induction files generalizing p with
  | nil => exact .done p
  | cons file files ih =>
    rw [readDeclarations]
    refine .contents fun answer => ?_
    cases answer.bind fun text => (Declarations.ofText text starts).mapError ExprError.message with
    | error cause => exact .report _ _ (ih p.addUnreadable)
    | ok d =>
      have hlog : setups (skippedRecordsIn file d.skipped) = [] := by
        rw [skippedRecordsIn]
        split <;> rfl
      exact (quiet_logAll hlog).bind fun _ => ih _

theorem quiet_readSources (p : ScanProgress) (files : List Text) :
    (p.readSources files).Quiet := by
  induction files generalizing p with
  | nil => exact .done p
  | cons file files ih =>
    rw [readSources]
    refine .contents fun answer => ?_
    cases answer with
    | error cause => exact .report _ _ (ih p.addUnreadable)
    | ok text => exact ih _

end ScanProgress

/-- **A scan** sets up no log. -/
theorem CatalogSettings.quiet_scan (s : CatalogSettings) : s.scan.Quiet :=
  (FoundFiles.quiet_walk _ _ _).bind fun docs =>
    (FoundFiles.quiet_walk _ _ _).bind fun sources =>
      (quiet_message _ _).bind fun _ =>
        (ScanProgress.quiet_readDeclarations _ _ docs.files).bind fun p =>
          (p.quiet_readSources sources.files).bind fun q =>
            (quiet_message _ _).bind fun _ => .done (q.snapshot, q.stats)

/-! ### Names and settings -/

namespace Catalog

variable {c d : Catalog} {o : Occurrence} {reply : Reply}

/-- The names of a catalogue are all names that some scan under its settings found, and the scan
that is under way, if there is one, is under its settings as well. -/
structure Faithful (c : Catalog) : Prop where
  task_eq : ∀ scan ∈ c.scans, ∃ answers, scan.task = c.settings.scan.answered answers
  whole : c.snapshot = .empty ∨
    ∃ answers stats, c.settings.scan.answered answers = .done (c.snapshot, stats)

theorem faithful_of_scans_eq_nil (hscans : c.scans = [])
    (hwhole : c.snapshot = .empty ∨
      ∃ answers stats, c.settings.scan.answered answers = .done (c.snapshot, stats)) :
    c.Faithful where
  task_eq scan hscan := by
    rw [hscans] at hscan
    cases hscan
  whole := hwhole

/-- Nothing that happens to a catalogue changes its settings. -/
theorem Step.settings_eq (h : Step c o d reply) : d.settings = c.settings := by
  cases h <;> rfl

/-- **One occurrence** leaves the names faithful to the settings. -/
theorem Faithful.step (h : c.Faithful) (hstep : Step c o d reply) : d.Faithful := by
  cases hstep with
  | start hscans =>
    exact {
      task_eq := List.forall_mem_singleton.mpr ⟨[], rfl⟩
      whole := h.whole }
  | join | skip => exact h
  | @answer scan hscans answer =>
    obtain ⟨answers, htask⟩ := h.task_eq scan (mem_of_scans_eq hscans)
    exact {
      task_eq := List.forall_mem_singleton.mpr
        ⟨answers ++ [answer], by rw [answered_concat]; exact htask ▸ rfl⟩
      whole := h.whole }
  | @takeOver number snapshot stats hscans =>
    obtain ⟨answers, htask⟩ := h.task_eq _ (mem_of_scans_eq hscans)
    exact {
      task_eq := List.forall_mem_singleton.mpr ⟨answers, htask⟩
      whole := .inr ⟨answers, stats, htask.symm⟩ }
  | settle hscans => exact faithful_of_scans_eq_nil rfl h.whole

/-- Builds write messages only. -/
theorem Faithful.setups_step (h : c.Faithful) (o : Occurrence) : setups (c.step o).2.2 = [] := by
  have hquiet := c.settings.quiet_scan
  cases o with
  | request =>
    rw [Catalog.step]
    cases hpending : c.pending with
    | some number => rw [requestBuild_of_pending hpending]; rfl
    | none => rw [requestBuild_of_idle hpending]; exact hquiet.advance.2
  | answer number answer =>
    rw [Catalog.step, deliver]
    cases hscan : c.scan? number with
    | none => rfl
    | some scan =>
      obtain ⟨answers, htask⟩ := h.task_eq scan (mem_of_scan? hscan).1
      have hleft := hquiet.answered answers
      rw [← htask] at hleft
      exact (hleft.resume answer).2
  | takeOver number => rfl
  | settle number =>
    rw [Catalog.step]
    split <;> rfl

end Catalog

/-! ### New settings -/

namespace Session

variable {cmp : SettingsComparison} {s : Session} {new : Settings}

theorem reconfigure_of_same (h : cmp.whole s.settings new = true) :
    s.reconfigure cmp new = (s, ⟨false, true, true⟩, []) :=
  if_pos h

theorem reconfigure_of_not_same (h : ¬cmp.whole s.settings new = true) :
    s.reconfigure cmp new =
      ({ settings := new
         table := if cmp.indent s.settings new then s.table else new.indent.table
         catalog := if cmp.catalog s.settings new then s.catalog else emptyCatalog new },
        ⟨true, cmp.indent s.settings new, cmp.catalog s.settings new⟩,
        changeEntries cmp s.settings new) :=
  if_neg h

/-- All that new settings do to a session. -/
structure Reconfigures (cmp : SettingsComparison) (s : Session) (new : Settings) : Prop where
  changed_iff : (s.reconfigure cmp new).2.1.changed = false ↔ cmp.whole s.settings new = true
  /-- Equal settings do nothing, and nothing is written to the log. -/
  unchanged : (s.reconfigure cmp new).2.1.changed = false →
    (s.reconfigure cmp new).1 = s ∧ (s.reconfigure cmp new).2.2 = []
  settings_eq : (s.reconfigure cmp new).2.1.changed = true →
    (s.reconfigure cmp new).1.settings = new
  tableKept_iff : (s.reconfigure cmp new).2.1.tableKept = true ↔ cmp.indent s.settings new = true
  table_eq : (s.reconfigure cmp new).1.table =
    if (s.reconfigure cmp new).2.1.tableKept then s.table else new.indent.table
  catalogKept_iff : (s.reconfigure cmp new).2.1.catalogKept = true ↔
    cmp.catalog s.settings new = true
  /-- A catalogue is kept with its names and with the scan that is under way. -/
  catalog_eq : (s.reconfigure cmp new).1.catalog =
    if (s.reconfigure cmp new).2.1.catalogKept then s.catalog else emptyCatalog new

theorem reconfigures_of_same (hcmp : cmp.IsStructural) (h : cmp.whole s.settings new = true) :
    Reconfigures cmp s new := by
  obtain ⟨hcatalog, hindent, -⟩ := (hcmp.whole_iff _ _).mp h
  have heq := reconfigure_of_same h
  constructor <;> rw [heq]
  case changed_iff => exact iff_of_true rfl h
  case unchanged => exact fun _ => ⟨rfl, rfl⟩
  case settings_eq =>
    intro hchanged
    cases hchanged
  case tableKept_iff => exact iff_of_true rfl hindent
  case catalogKept_iff => exact iff_of_true rfl hcatalog
  case table_eq | catalog_eq => exact (if_pos rfl).symm

theorem reconfigures_of_not_same (h : ¬cmp.whole s.settings new = true) :
    Reconfigures cmp s new := by
  have heq := reconfigure_of_not_same h
  constructor <;> rw [heq]
  case changed_iff => exact iff_of_false Bool.noConfusion h
  case unchanged =>
    intro hunchanged
    cases hunchanged
  case settings_eq => exact fun _ => rfl

/-- **New settings** replace what they change, and nothing else. -/
theorem reconfigures (hcmp : cmp.IsStructural) (s : Session) (new : Settings) :
    Reconfigures cmp s new := by
  by_cases h : cmp.whole s.settings new = true
  · exact reconfigures_of_same hcmp h
  · exact reconfigures_of_not_same h

end Session

/-! ### Courses -/

namespace Session

/-- What can happen to a session. -/
inductive Occurrence
  | reconfigure (settings : Settings)
  /-- Something happens to the catalogue: a build is requested, or goes on. -/
  | catalog (o : Catalog.Occurrence)
  /-- Something happens to a catalogue that was replaced. -/
  | replaced (number : Nat) (o : Catalog.Occurrence)

/-- Whether something happens to the session itself. -/
def Occurrence.isOwn : Occurrence → Bool
  | .reconfigure _ | .catalog _ => true
  | .replaced _ _ => false

/-- A session and what it has left behind. -/
structure Course where
  session : Session
  /-- The catalogues that were replaced, with the scans that are still under way in them. -/
  replaced : List Catalog
  /-- All that the log was told. -/
  log : List LogEntry

namespace Course

/-- One occurrence. -/
def step (cmp : SettingsComparison) (c : Course) : Occurrence → Course
  | .reconfigure new =>
    let (session, change, entries) := c.session.reconfigure cmp new
    { session
      replaced := if change.catalogKept then c.replaced else c.replaced ++ [c.session.catalog]
      log := c.log ++ entries }
  | .catalog o =>
    let (catalog, _, entries) := c.session.catalog.step o
    { c with session := { c.session with catalog }, log := c.log ++ entries }
  | .replaced number o =>
    match c.replaced[number]? with
    | none => c
    | some old =>
      let (old, _, entries) := old.step o
      { c with replaced := c.replaced.set number old, log := c.log ++ entries }

/-- A session after some occurrences. -/
def after (cmp : SettingsComparison) (c : Course) (os : List Occurrence) : Course :=
  os.foldl (step cmp) c

/-- A session that was started from a settings file, if the reads on the way were answered so. -/
def started (parse : JsonParser) (file : Option Text) (answers : List ReadAnswer) (s : Session) :
    Course :=
  ⟨s, [], (activate parse file).written answers⟩

/-- What is derived from settings belongs to those that the session has now. -/
structure UpToDate (c : Course) : Prop where
  table_eq : c.session.table = c.session.settings.indent.table
  settings_eq : c.session.catalog.settings = c.session.settings.catalog
  level_eq : (setups c.log).getLast? = some c.session.settings.logLevel
  catalog : c.session.catalog.Faithful
  replaced : ∀ old ∈ c.replaced, old.Faithful

end Course

/-! ### The start -/

theorem faithful_emptyCatalog (settings : Settings) : (emptyCatalog settings).Faithful :=
  Catalog.faithful_of_scans_eq_nil rfl (.inl rfl)

/-- The settings with which a session is started. -/
def firstSettings (parse : JsonParser) : Option Text → FileTask (Except SettingsError Settings)
  | none | some [] => .done (.ok .standard)
  | some file => Settings.load parse file

/-- The start of a session, once its settings are known and the log is set up for them. -/
def firstScan (settings : Settings) : FileTask (Except SettingsError Session) :=
  settings.catalog.scan.bind fun (snapshot, stats) =>
    .report (.verbose (Text.ofString "[session] started with " ++ Text.ofInt stats.symbols ++
      Text.ofString " symbols")) <|
    .done (.ok { ofSettings settings with catalog := { emptyCatalog settings with snapshot } })

theorem quiet_firstScan (settings : Settings) : (firstScan settings).Quiet :=
  settings.catalog.quiet_scan.bind fun _ => .report _ _ (.done _)

theorem activate_eq (parse : JsonParser) (file : Option Text) :
    activate parse file = (firstSettings parse file).bind fun
      | .error e => .done (.error e)
      | .ok settings => .report (.setup settings.logLevel) (firstScan settings) := by
  rcases file with _ | _ | ⟨u, file⟩ <;> rfl

/-- A session that is started holds all names that a scan found, and the log is set up for it. -/
theorem exists_scan_of_activate {parse : JsonParser} {file : Option Text}
    {answers : List ReadAnswer} {s : Session}
    (h : (activate parse file).answered answers = .done (.ok s)) :
    (∃ snapshot stats as, s.settings.catalog.scan.answered as = .done (snapshot, stats) ∧
        s = { ofSettings s.settings with
          catalog := { emptyCatalog s.settings with snapshot } }) ∧
      (setups ((activate parse file).written answers)).getLast? = some s.settings.logLevel := by
  rw [activate_eq] at h ⊢
  obtain ⟨loaded, as, bs, -, hstart, hwritten⟩ := exists_of_answered_bind h
  rw [hwritten, setups_append]
  cases loaded with
  | error e =>
    rw [answered_done] at hstart
    cases hstart
  | ok settings =>
    obtain ⟨⟨snapshot, stats⟩, cs, ds, hscan, hend, -⟩ := exists_of_answered_bind hstart
    have hsession : { ofSettings settings with
        catalog := { emptyCatalog settings with snapshot } } = s := by
      have hdone := (answered_done _ ds).symm.trans hend
      injection hdone with hdone
      injection hdone
    subst hsession
    refine ⟨⟨snapshot, stats, cs, hscan, rfl⟩, ?_⟩
    -- what is written after the log was set up are messages
    rw [written_report]
    show (_ ++ settings.logLevel :: setups ((firstScan settings).written bs)).getLast? = _
    rw [(quiet_firstScan settings).setups_written]
    exact List.getLast?_concat

namespace Course

/-- **A session that is started** is up to date. -/
theorem upToDate_of_activate {parse : JsonParser} {file : Option Text} {answers : List ReadAnswer}
    {s : Session} (h : (activate parse file).answered answers = .done (.ok s)) :
    (started parse file answers s).UpToDate := by
  obtain ⟨⟨snapshot, stats, as, hscan, hs⟩, hlevel⟩ := exists_scan_of_activate h
  generalize s.settings = settings at hscan hs hlevel
  subst hs
  exact {
    table_eq := rfl
    settings_eq := rfl
    level_eq := hlevel
    catalog := Catalog.faithful_of_scans_eq_nil rfl (.inr ⟨as, stats, hscan⟩)
    replaced := nofun }

/-! ### One occurrence -/

variable {cmp : SettingsComparison} {c : Course}

/-- Messages leave the log set up as it was. -/
theorem getLast?_setups_append {log entries : List LogEntry} {level : LogLevel}
    (hlog : (setups log).getLast? = some level) (hentries : setups entries = []) :
    (setups (log ++ entries)).getLast? = some level := by
  rw [setups_append, hentries, List.append_nil, hlog]

theorem setups_changeEntries (old new : Settings) :
    setups (changeEntries cmp old new) = if cmp.log old new then [] else [new.logLevel] := by
  rw [changeEntries]
  split <;> split <;> rfl

section Reconfigure

variable (hcmp : cmp.IsStructural)

include hcmp

theorem UpToDate.table_of_reconfigure (h : c.UpToDate) (new : Settings) :
    (if cmp.indent c.session.settings new then c.session.table else new.indent.table) =
      new.indent.table := by
  split
  · next hsame => rw [h.table_eq, hcmp.indent_eq hsame]
  · rfl

theorem UpToDate.catalog_of_reconfigure (h : c.UpToDate) (new : Settings) :
    (if cmp.catalog c.session.settings new then c.session.catalog
        else emptyCatalog new).settings = new.catalog ∧
      (if cmp.catalog c.session.settings new then c.session.catalog
        else emptyCatalog new).Faithful := by
  split
  · next hsame => exact ⟨h.settings_eq.trans (hcmp.catalog_eq hsame), h.catalog⟩
  · exact ⟨rfl, faithful_emptyCatalog new⟩

theorem UpToDate.level_of_reconfigure (h : c.UpToDate) (new : Settings) :
    (setups (c.log ++ changeEntries cmp c.session.settings new)).getLast? = some new.logLevel := by
  rw [setups_append, setups_changeEntries]
  split
  · next hsame => rw [List.append_nil, h.level_eq, (hcmp.log_iff _ _).mp hsame]
  · exact List.getLast?_concat

/-- **New settings** leave a session up to date. -/
theorem UpToDate.reconfigure (h : c.UpToDate) (new : Settings) :
    (c.step cmp (.reconfigure new)).UpToDate := by
  by_cases hsame : cmp.whole c.session.settings new = true
  · rw [step, reconfigure_of_same hsame]
    simp only [if_true, List.append_nil]
    exact h
  · rw [step, reconfigure_of_not_same hsame]
    exact {
      table_eq := h.table_of_reconfigure hcmp new
      settings_eq := (h.catalog_of_reconfigure hcmp new).1
      level_eq := h.level_of_reconfigure hcmp new
      catalog := (h.catalog_of_reconfigure hcmp new).2
      replaced := by
        -- the catalogue that is left behind was faithful to its own settings
        intro old hold
        dsimp only at hold
        split at hold
        · exact h.replaced old hold
        · rcases List.mem_append.mp hold with hold | hold
          · exact h.replaced old hold
          · obtain rfl := List.mem_singleton.mp hold
            exact h.catalog }

end Reconfigure

theorem UpToDate.catalogStep (h : c.UpToDate) (o : Catalog.Occurrence) :
    (c.step cmp (.catalog o)).UpToDate := by
  have hstep := c.session.catalog.step_spec o
  exact {
    table_eq := h.table_eq
    settings_eq := hstep.settings_eq.trans h.settings_eq
    level_eq := getLast?_setups_append h.level_eq (h.catalog.setups_step o)
    catalog := h.catalog.step hstep
    replaced := h.replaced }

theorem UpToDate.replacedStep (h : c.UpToDate) (number : Nat) (o : Catalog.Occurrence) :
    (c.step cmp (.replaced number o)).UpToDate := by
  rw [step]
  cases hold : c.replaced[number]? with
  | none => exact h
  | some old =>
    have hfaithful := h.replaced old (List.mem_of_getElem? hold)
    exact {
      table_eq := h.table_eq
      settings_eq := h.settings_eq
      level_eq := getLast?_setups_append h.level_eq (hfaithful.setups_step o)
      catalog := h.catalog
      replaced := by
        intro other hother
        rcases List.mem_or_eq_of_mem_set hother with hother | rfl
        · exact h.replaced other hother
        · exact hfaithful.step (old.step_spec o) }

theorem UpToDate.step (hcmp : cmp.IsStructural) (h : c.UpToDate) (o : Occurrence) :
    (c.step cmp o).UpToDate := by
  cases o with
  | reconfigure new => exact h.reconfigure hcmp new
  | catalog o => exact h.catalogStep o
  | replaced number o => exact h.replacedStep number o

/-! ### Every course -/

/-- **A course** leaves a session up to date. -/
theorem UpToDate.after (hcmp : cmp.IsStructural) (h : c.UpToDate) (os : List Occurrence) :
    (c.after cmp os).UpToDate := by
  induction os generalizing c with
  | nil => exact h
  | cons o os ih => exact ih (h.step hcmp o)

/-- What happens to catalogues that were replaced does not concern the session. -/
theorem session_step_replaced (c : Course) (number : Nat) (o : Catalog.Occurrence) :
    (c.step cmp (.replaced number o)).session = c.session := by
  rw [Course.step]
  split <;> rfl

/-- The session itself looks into no catalogue that was replaced. -/
theorem session_step_congr {d : Course} (h : c.session = d.session) {o : Occurrence}
    (ho : o.isOwn = true) : (c.step cmp o).session = (d.step cmp o).session := by
  cases o with
  | reconfigure new => simp only [Course.step, h]
  | catalog o => simp only [Course.step, h]
  | replaced number o => cases ho

/-- **A scan in a catalogue that was replaced** never shows: without all that happens to it, the
session would be the same. -/
theorem session_after_filter {d : Course} (h : c.session = d.session) (os : List Occurrence) :
    (c.after cmp os).session = (d.after cmp (os.filter Occurrence.isOwn)).session := by
  induction os generalizing c d with
  | nil => exact h
  | cons o os ih =>
    by_cases ho : o.isOwn = true
    · rw [List.filter_cons_of_pos ho]
      exact ih (session_step_congr h ho)
    · rw [List.filter_cons_of_neg ho]
      cases o with
      | reconfigure new => exact absurd rfl ho
      | catalog o => exact absurd rfl ho
      | replaced number o => exact ih ((session_step_replaced c number o).trans h)

end Course

open Course in
/-- **A session reflects its settings**, whatever happens after it was started: new settings,
requests for builds, and answers to reads and ends of scans, in the catalogue and in those that were
replaced. This holds for any reader of settings files, and for any comparison of settings that is
structural.

Its rule table is the one of the settings that it has now, and so is the level for which the log was
set up last. The catalogue belongs to these settings; its names are none, or all that some scan
under these settings found, and nothing that happens in other catalogues changes them. New settings
change nothing if they are equal to the ones before; they leave the rule table, and the catalogue
with its names, just if their own sections are equal. Settings whose objects rest on no others are
equal, and so are sections of them, just if they are the same. -/
theorem reflects_settings {parse : JsonParser} {cmp : SettingsComparison} (hcmp : cmp.IsStructural)
    {file : Option Text} {answers : List ReadAnswer} {s : Session}
    (h : (activate parse file).answered answers = .done (.ok s)) (os : List Occurrence) :
    let c := (started parse file answers s).after cmp os
    c.session.table = c.session.settings.indent.table ∧
    c.session.catalog.settings = c.session.settings.catalog ∧
    (setups c.log).getLast? = some c.session.settings.logLevel ∧
    (c.session.catalog.snapshot = .empty ∨ ∃ answers stats,
      c.session.settings.catalog.scan.answered answers =
        .done (c.session.catalog.snapshot, stats)) ∧
    c.session = ((started parse file answers s).after cmp (os.filter Occurrence.isOwn)).session ∧
    ∀ new, Reconfigures cmp c.session new ∧
      (c.session.settings.background = .plain → new.background = .plain →
        let change := (c.session.reconfigure cmp new).2.1
        (change.changed = false ↔ c.session.settings = new) ∧
        (change.tableKept = true ↔ c.session.settings.indent = new.indent) ∧
        (change.catalogKept = true ↔ c.session.settings.catalog = new.catalog)) := by
  intro c
  have hc : c.UpToDate := (upToDate_of_activate h).after hcmp os
  refine ⟨hc.table_eq, hc.settings_eq, hc.level_eq, hc.settings_eq ▸ hc.catalog.whole,
    session_after_filter rfl os, fun new => ?_⟩
  have hnew := reconfigures hcmp c.session new
  exact ⟨hnew, fun hold hplain => ⟨hnew.changed_iff.trans (hcmp.whole_iff_eq hold hplain),
    hnew.tableKept_iff.trans (hcmp.indent_iff_eq hold hplain),
    hnew.catalogKept_iff.trans (hcmp.catalog_iff_eq hold hplain)⟩⟩

/-- A session without a settings file has nothing to scan. -/
theorem answered_activate_none (parse : JsonParser) :
    (activate parse none).answered [] =
      .done (.ok { ofSettings .standard with
        catalog := { emptyCatalog .standard with
          snapshot := ScanProgress.snapshot ⟨[], 0, 0, 0⟩ } }) := by
  have hwalk (extensions : List Text) :
      FoundFiles.walk extensions .empty [] = .done .empty := by
    rw [FoundFiles.walk]
  have hscan : CatalogSettings.standard.scan =
      (FoundFiles.walk [.ofString ".fnd"] .empty []).bind fun docs =>
        (FoundFiles.walk [.ofString ".il", .ofString ".ils"] .empty []).bind fun sources =>
          .report (scanAnnouncement docs sources)
            ((ScanProgress.readDeclarations [] ⟨[], 0, docs.unreadable + sources.unreadable, 0⟩
              docs.files).bind fun p => (p.readSources sources.files).bind fun q =>
                .report q.summary (.done (q.snapshot, q.stats))) := rfl
  rw [hwalk, done_bind, hwalk, done_bind] at hscan
  rw [activate_eq]
  show (firstScan .standard).advance.1 = _
  rw [firstScan]
  show (FileTask.bind CatalogSettings.standard.scan _).advance.1 = _
  rw [hscan]
  rfl

/-- A build is under way when new settings replace the catalogue, and ends after that. -/
theorem reflects_settings_replaced :
    ∃ s, (activate Json.ofText none).answered [] = .done (.ok s) ∧
      let new := { Settings.standard with
        catalog := { CatalogSettings.standard with recursive := false }, logLevel := .warn }
      let c := (Course.started Json.ofText none [] s).after .byMembers
        [.catalog .request, .reconfigure new, .replaced 0 (.takeOver 0), .catalog .request]
      c.session.settings = new ∧ (setups c.log).getLast? = some .warn ∧
      c.session.catalog.settings = new.catalog := by
  refine ⟨_, answered_activate_none Json.ofText, ?_⟩
  intro new c
  have h := reflects_settings SettingsComparison.isStructural_byMembers
    (answered_activate_none Json.ofText)
    [.catalog .request, .reconfigure new, .replaced 0 (.takeOver 0), .catalog .request]
  have hnew : c.session.settings = new := rfl
  obtain ⟨-, hcatalog, hlevel, -⟩ := h
  exact ⟨hnew, hlevel.trans (congrArg (fun settings => some settings.logLevel) hnew),
    hcatalog.trans (congrArg Settings.catalog hnew)⟩

end Session

end SexpEditing
