import SexpEditing.Proofs.Catalog.Steps

/-!
# The course of builds

Whatever the order in which requests, answers and ends of scans follow one another, whoever requests
a build while a scan is under way waits for that scan, and look-ups see the names of one scan that
has come to its end. Every scan comes to its end, if what it waits for happens again and again; this
is shown by induction on what is left of it.

## Main definitions

* `Catalog.stateAt`: an endless history
* `Catalog.Served`, `Catalog.Settles`: a scan is served again and again, and its build is over
* `Catalog.inTurn`: everything for which a scan may wait, in turn

## Main results

* `Catalog.settles_of_served`: a scan that is served again and again comes to its end
* `Catalog.Sound.served_inTurn`, `Catalog.Sound.settles_inTurn`: such a history
* `Catalog.step_settle_of_build`: a build without interruption
* `Catalog.builds_of_history`: every history
-/

namespace SexpEditing

namespace Catalog

variable {c d : Catalog} {s : CatalogSettings} {given : Nat → List ReadAnswer} {o : Occurrence}
  {reply : Reply}

/-! ### Scans come to their end -/

/-- A catalogue in an endless history. -/
def stateAt (c : Catalog) (history : Nat → Occurrence) : Nat → Catalog
  | 0 => c
  | k + 1 => ((stateAt c history k).step (history k)).1

/-- Whenever the scan with a number is under way, there comes an occurrence for which it waits. -/
def Served (c : Catalog) (number : Nat) (history : Nat → Occurrence) : Prop :=
  ∀ i, (c.stateAt history i).scan? number ≠ none →
    ∃ j ≥ i, (c.stateAt history j).Serves number (history j)

/-- The scan with a number is settled at some time. -/
def Settles (c : Catalog) (number : Nat) (history : Nat → Occurrence) : Prop :=
  ∃ k stats, ((c.stateAt history k).step (history k)).2.1 = .settled number stats

theorem Sound.stateAt (h : Sound s given c) (history : Nat → Occurrence) (k : Nat) :
    ∃ given', Sound s given' (c.stateAt history k) := by
  induction k with
  | zero => exact ⟨given, h⟩
  | succ k ih =>
    obtain ⟨given', hk⟩ := ih
    exact ⟨_, hk.step (step_spec _ (history k))⟩

/-- What a scan waits for is told by the scan. -/
theorem serves_congr {number : Nat} (h : c.scan? number = d.scan? number) :
    c.Serves number o ↔ d.Serves number o := by
  cases o <;> simp only [Serves, h]

/-- The scan that an occurrence is about. -/
theorem eq_of_scan?_of_scans_eq {number : Nat} {scan scan' : CatalogScan}
    (hscan : c.scan? number = some scan) (hscans : c.scans = [scan']) :
    scan = scan' ∧ scan.number = number := by
  obtain ⟨hmem, hnumber⟩ := mem_of_scan? hscan
  rw [hscans, List.mem_singleton] at hmem
  exact ⟨hmem, hnumber⟩

/-- An occurrence for which a scan does not wait leaves it as it is. -/
theorem Step.scan?_of_not_serves (h : Step c o d reply) {number : Nat} {scan : CatalogScan}
    (hscan : c.scan? number = some scan) (hserves : ¬c.Serves number o) :
    d.scan? number = some scan := by
  cases h with
  | start hscans =>
    rw [scan?, hscans] at hscan
    cases hscan
  | answer hscans a =>
    obtain ⟨rfl, hnumber⟩ := eq_of_scan?_of_scans_eq hscan hscans
    have hsame := FileTask.resume_of_not_takes fun htakes => hserves ⟨hnumber, scan, hscan, htakes⟩
    rw [hsame, scan?_of_scans_eq rfl, if_pos hnumber]
  | takeOver hscans | settle hscans =>
    obtain ⟨rfl, rfl⟩ := eq_of_scan?_of_scans_eq hscan hscans
    exact absurd ⟨rfl, _, hscan⟩ hserves
  | join | skip => exact hscan

/-- An occurrence for which a scan waits brings it a read further, or takes it over if all is read,
or settles it if it was taken over. -/
theorem Step.of_serves (h : Step c o d reply) {number : Nat} {scan : CatalogScan}
    (hscan : c.scan? number = some scan) (hserves : c.Serves number o) :
    (∃ answer, scan.task.Takes answer ∧
        d.scan? number = some { scan with task := (scan.task.resume answer).1 }) ∨
      (∃ result, scan = ⟨number, .done result, false⟩ ∧
        d.scan? number = some ⟨number, .done result, true⟩) ∨
      ∃ result, scan = ⟨number, .done result, true⟩ ∧ reply = .settled number result.2 := by
  cases h with
  | start | join => cases hserves
  | answer hscans a =>
    obtain ⟨rfl, hnumber⟩ := eq_of_scan?_of_scans_eq hscan hscans
    obtain ⟨-, scan', hscan', htakes⟩ := hserves
    rw [hscan] at hscan'
    cases hscan'
    exact .inl ⟨a, htakes, by rw [scan?_of_scans_eq rfl, if_pos hnumber]⟩
  | takeOver hscans =>
    obtain ⟨rfl, rfl⟩ := eq_of_scan?_of_scans_eq hscan hscans
    exact .inr (.inl ⟨_, rfl, by rw [scan?_of_scans_eq rfl, if_pos rfl]⟩)
  | settle hscans =>
    obtain ⟨rfl, rfl⟩ := eq_of_scan?_of_scans_eq hscan hscans
    exact .inr (.inr ⟨_, rfl, rfl⟩)
  | skip _ hnone => exact absurd hserves (hnone number)

variable {history : Nat → Occurrence} {number : Nat}

/-- A scan that is served stays as it is until then. -/
theorem exists_serves (hserved : c.Served number history) {i : Nat}
    {scan : CatalogScan} (hscan : (c.stateAt history i).scan? number = some scan) :
    ∃ j, (c.stateAt history j).scan? number = some scan ∧
      (c.stateAt history j).Serves number (history j) ∧
      Step (c.stateAt history j) (history j) (c.stateAt history (j + 1))
        ((c.stateAt history j).step (history j)).2.1 := by
  have hstep (j : Nat) : Step (c.stateAt history j) (history j) (c.stateAt history (j + 1))
      ((c.stateAt history j).step (history j)).2.1 := step_spec _ (history j)
  obtain ⟨j, hle, hserves⟩ := hserved i (by rw [hscan]; exact Option.some_ne_none scan)
  -- the first occurrence from `i` on for which the scan waits comes at `j` or before
  induction hn : j - i generalizing i with
  | zero =>
    obtain rfl : i = j := by omega
    exact ⟨i, hscan, hserves, hstep i⟩
  | succ n ih =>
    by_cases hi : (c.stateAt history i).Serves number (history i)
    · exact ⟨i, hscan, hi, hstep i⟩
    · have hnext := (hstep i).scan?_of_not_serves hscan hi
      exact ih hnext (by omega) (by omega)

/-- A scan that is served is given an answer for which it waits, unless it has come to its end. -/
theorem exists_takes (hserved : c.Served number history) {i : Nat}
    {scan : CatalogScan} (hscan : (c.stateAt history i).scan? number = some scan)
    (hreads : ∀ result, scan.task ≠ .done result) :
    ∃ j answer, scan.task.Takes answer ∧ (c.stateAt history j).scan? number =
      some { scan with task := (scan.task.resume answer).1 } := by
  obtain ⟨j, hscan, hserves, hstep⟩ := exists_serves hserved hscan
  obtain ⟨answer, htakes, hnext⟩ | ⟨result, rfl, -⟩ | ⟨result, rfl, -⟩ :=
    hstep.of_serves hscan hserves
  · exact ⟨j + 1, answer, htakes, hnext⟩
  · exact absurd rfl (hreads result)
  · exact absurd rfl (hreads result)

/-- A scan that was taken over is settled. -/
theorem settles_of_takenOver (hserved : c.Served number history) {i : Nat}
    {result : CatalogSnapshot × CatalogStats}
    (hscan : (c.stateAt history i).scan? number = some ⟨number, .done result, true⟩) :
    c.Settles number history := by
  obtain ⟨j, hscan, hserves, hstep⟩ := exists_serves hserved hscan
  obtain ⟨_, htakes, -⟩ | ⟨_, heq, -⟩ | ⟨_, -, hreply⟩ := hstep.of_serves hscan hserves
  · cases htakes
  · cases heq
  · exact ⟨j, _, hreply⟩

/-- **A scan that is served again and again** comes to its end. The induction is on what is left of
it. -/
theorem settles_of_served (hserved : c.Served number history)
    (task : FileTask (CatalogSnapshot × CatalogStats)) {i : Nat}
    (hscan : (c.stateAt history i).scan? number = some ⟨number, task.advance.1, false⟩) :
    c.Settles number history := by
  induction task generalizing i with
  | report entry next ih => exact ih hscan
  | done result =>
    obtain ⟨j, hscan, hserves, hstep⟩ := exists_serves hserved hscan
    obtain ⟨_, htakes, -⟩ | ⟨_, -, hnext⟩ | ⟨_, heq, -⟩ := hstep.of_serves hscan hserves
    · cases htakes
    · exact settles_of_takenOver hserved hnext
    · cases heq
  | listing path next ih =>
    -- whatever the listing holds, what is left is below the task
    obtain ⟨j, answer, htakes, hnext⟩ := exists_takes hserved hscan nofun
    cases answer with
    | directory entries => exact ih entries hnext
    | file => cases htakes
  | contents path next ih =>
    obtain ⟨j, answer, htakes, hnext⟩ := exists_takes hserved hscan nofun
    cases answer with
    | directory => cases htakes
    | file text => exact ih text hnext

/-- A scan under way has come to its next read, or to its end. -/
theorem OnCourse.advance_eq {scan : CatalogScan} (h : OnCourse s given c scan) :
    scan.task.advance.1 = scan.task := by
  rw [h.task_eq]
  exact FileTask.advance_answered _ _

section InTurn

variable (entries : Except Text (List DirectoryEntry)) (text : Except Text Text)

/-- A history that offers a scan everything for which it may wait, in turn. -/
def inTurn (number : Nat) (k : Nat) : Occurrence :=
  match k % 4 with
  | 0 => .answer number (.directory entries)
  | 1 => .answer number (.file text)
  | 2 => .takeOver number
  | _ => .settle number

theorem inTurn_add (number i k : Nat) :
    inTurn entries text number (4 * i + k) = inTurn entries text number k := by
  rw [inTurn, Nat.mul_add_mod, inTurn]

/-- Every scan waits for something that comes in turn. -/
theorem Sound.exists_serves_inTurn (h : Sound s given c) {scan : CatalogScan}
    (hmem : scan ∈ c.scans) : ∃ k, c.Serves scan.number (inTurn entries text scan.number k) := by
  have hscan := scan?_of_mem hmem
  have hadvance := (h.onCourse scan hmem).advance_eq
  obtain ⟨number, task, takenOver⟩ := scan
  cases task with
  | listing path next => exact ⟨0, rfl, _, hscan, trivial⟩
  | contents path next => exact ⟨1, rfl, _, hscan, trivial⟩
  | done result =>
    cases takenOver with
    | false => exact ⟨2, rfl, result, hscan⟩
    | true => exact ⟨3, rfl, result, hscan⟩
  | report entry next => exact absurd hadvance (FileTask.advance_ne_report _ _ _)

/-- **A scan is served** if everything for which it may wait comes in turn, whatever the answers. -/
theorem Sound.served_inTurn (h : Sound s given c) (number : Nat) :
    c.Served number (inTurn entries text number) := by
  intro i hne
  obtain ⟨scan, hscan⟩ := Option.ne_none_iff_exists'.mp hne
  obtain ⟨given', hsound⟩ := h.stateAt (inTurn entries text number) i
  refine Classical.byContradiction fun hserved => ?_
  have hnone (j : Nat) (hle : i ≤ j) : ¬(c.stateAt (inTurn entries text number) j).Serves number
      (inTurn entries text number j) := fun hserves => hserved ⟨j, hle, hserves⟩
  -- nothing would change the scan any more, so it would still wait when its turn comes
  have hstays (k : Nat) :
      (c.stateAt (inTurn entries text number) (i + k)).scan? number = some scan := by
    induction k with
    | zero => exact hscan
    | succ k ih =>
      exact (step_spec _ _).scan?_of_not_serves ih (hnone (i + k) (Nat.le_add_right i k))
  obtain ⟨hmem, rfl⟩ := mem_of_scan? hscan
  obtain ⟨k, hserves⟩ := hsound.exists_serves_inTurn entries text hmem
  refine hnone (4 * i + k) (by omega) ?_
  rw [inTurn_add, show 4 * i + k = i + (3 * i + k) by omega]
  exact (serves_congr (hscan.trans (hstays _).symm)).mp hserves

end InTurn

/-- **Every scan under way** comes to its end. -/
theorem Sound.settles (h : Sound s given c) {scan : CatalogScan} (hmem : scan ∈ c.scans)
    (hserved : c.Served scan.number history) : c.Settles scan.number history := by
  have hscan := scan?_of_mem hmem
  have hcourse := h.onCourse scan hmem
  have hadvance := hcourse.advance_eq
  obtain ⟨number, task, takenOver⟩ := scan
  cases takenOver with
  | false =>
    -- the history starts where the scan is
    have hzero : (c.stateAt history 0).scan? number = some ⟨number, task.advance.1, false⟩ :=
      hadvance.symm ▸ hscan
    exact settles_of_served hserved task hzero
  | true =>
    obtain ⟨stats, hdone⟩ := hcourse.takenOver rfl
    have hzero : (c.stateAt history 0).scan? number =
        some ⟨number, .done (c.snapshot, stats), true⟩ := hdone ▸ hscan
    exact settles_of_takenOver hserved hzero

/-- **Every scan comes to its end**, whatever the answers that come in turn. -/
theorem Sound.settles_inTurn (h : Sound s given c) {scan : CatalogScan} (hmem : scan ∈ c.scans)
    (entries : Except Text (List DirectoryEntry)) (text : Except Text Text) :
    c.Settles scan.number (inTurn entries text scan.number) :=
  h.settles hmem (h.served_inTurn entries text scan.number)

/-! ### Builds without interruption -/

section Uninterrupted

variable (fs : FileSystem)

theorem after_answers {scan : CatalogScan} (h : c.scans = [scan]) (answers : List ReadAnswer) :
    c.after (answers.map (.answer scan.number)) =
      c.withScan { scan with
        task := answers.foldl (fun task answer => (task.resume answer).1) scan.task } := by
  induction answers generalizing c scan with
  | nil =>
    have hpending := (eq_of_mem_scans (mem_of_scans_eq h)).2
    obtain ⟨settings, inherited, snapshot, started, scans, pending, hnumbers⟩ := c
    cases h
    cases hpending
    rfl
  | cons answer answers ih =>
    let next : CatalogScan := { scan with task := (scan.task.resume answer).1 }
    have hstep : (c.step (.answer scan.number answer)).1 = c.withScan next := by
      rw [step, deliver, scan?_of_scans_eq h, if_pos rfl]
      exact changeScan_eq h (fun scan => { scan with task := next.task }) fun _ => rfl
    rw [List.map_cons, after, List.foldl_cons, hstep]
    exact ih (scans_withScan c next)

theorem step_takeOver {number : Nat} {result : CatalogSnapshot × CatalogStats}
    (h : c.scans = [⟨number, .done result, false⟩]) :
    (c.step (.takeOver number)).1 =
      { c.withScan ⟨number, .done result, true⟩ with snapshot := result.1 } := by
  rw [step, takeOver, scan?_of_scans_eq h, if_pos rfl]
  simp only [changeScan_eq h]

theorem step_settle {number : Nat} {result : CatalogSnapshot × CatalogStats}
    (h : c.scans = [⟨number, .done result, true⟩]) :
    c.step (.settle number) = (c.withoutScan, .settled number result.2, []) := by
  have hscan : c.scan? number = some ⟨number, .done result, true⟩ := by
    rw [scan?_of_scans_eq h, if_pos rfl]
  obtain ⟨result', hscan', hsettle⟩ | ⟨hother, -⟩ := settle_cases c number
  · cases hscan.symm.trans hscan'
    rw [step, hsettle]
  · exact absurd hscan (hother result)

/-- **A whole build** is a request, the answers of the file system to all reads, the end of the scan
and the end of the build, one after the other. -/
theorem step_settle_of_build (hpending : c.pending = none) :
    (c.after (.request :: (fs.answersIn (c.build fs).2.2).map (.answer c.started) ++
        [.takeOver c.started])).step (.settle c.started) =
      ((c.build fs).1, .settled c.started (c.build fs).2.1, []) := by
  have hrequest : (c.step .request).1.scans = [⟨c.started, c.settings.scan.advance.1, false⟩] := by
    rw [step, requestBuild_of_idle hpending]
    rfl
  -- the answers bring the scan to its end
  have hdone : c.settings.scan.answered (fs.answersIn (c.build fs).2.2) =
      .done ((c.settings.progress fs).snapshot, (c.settings.progress fs).stats) := by
    rw [build_eq hpending, ← (c.settings.runs_scan fs).answer_eq]
    exact FileTask.answered_answersIn fs c.settings.scan
  have hanswered := after_answers hrequest (fs.answersIn (c.build fs).2.2)
  rw [FileTask.answered] at hdone
  simp only [hdone] at hanswered
  have hafter : c.after (.request :: (fs.answersIn (c.build fs).2.2).map (.answer c.started) ++
      [.takeOver c.started]) = (((c.step .request).1.after
        ((fs.answersIn (c.build fs).2.2).map (.answer c.started))).step
          (.takeOver c.started)).1 := by
    rw [after, List.foldl_append]
    rfl
  rw [hafter, hanswered, step_takeOver rfl, step_settle rfl, build_eq hpending, step,
    requestBuild_of_idle hpending]
  rfl

end Uninterrupted

/-! ### All of it together -/

/-- Only the end of a scan changes the names. -/
theorem Step.takeOver_of_snapshot_ne (h : Step c o d reply) (hne : d.snapshot ≠ c.snapshot) :
    ∃ scan ∈ c.scans, o = .takeOver scan.number ∧
      ∃ stats, scan.task = .done (d.snapshot, stats) := by
  cases h with
  | takeOver hscans => exact ⟨_, mem_of_scans_eq hscans, rfl, _, rfl⟩
  | start | join | answer | settle | skip => exact absurd rfl hne

/-- Those who requested a build are told what its scan counted. -/
theorem Sound.ended_of_settled (h : Sound s given c) {number : Nat} {stats : CatalogStats}
    (hstep : Step c o d (.settled number stats)) :
    s.scan.answered (given number) = .done (c.snapshot, stats) := by
  cases hstep with
  | settle hscans =>
    have hcourse := h.onCourse _ (mem_of_scans_eq hscans)
    obtain ⟨stats', hdone⟩ := hcourse.takenOver rfl
    cases hdone
    exact hcourse.task_eq.symm

open Episode in
/-- **Every history of a catalogue**, in which requests for builds, answers to reads and the ends of
scans follow one another in any order.

There is at most one scan at a time, and a build is pending if there is one. The scan is left where
the answers that it was given brought it, and a request joins it; if there is none, a request starts
one, with a number that no request was given before. Look-ups see no names, or all names that some
scan found with the answers that it was given; they change only when the catalogue takes over a scan
that has come to its end. When a build is over, its scan has come to its end, and those who
requested it are told what the scan counted; this happens once, and after it no request is given the
number of this scan. A scan always waits for something, and if that happens again and again, its
build will be over. -/
theorem builds_of_history (s : CatalogSettings) (os : List Occurrence) :
    let xs := (ofSettings s).episodes os
    let c := (ofSettings s).after os
    (c.scans.length ≤ 1 ∧ c.pending = c.scans.head?.map CatalogScan.number) ∧
      (∀ scan ∈ c.scans, scan.task = s.scan.answered (answersTo scan.number xs) ∧
        c.step .request = (c, .joined scan.number, [])) ∧
      (c.scans = [] → (c.step .request).2.1 = .joined c.started ∧
        ∀ x ∈ xs, x.reply.number? ≠ some c.started) ∧
      (∃ snapshot, (snapshot = .empty ∨
          ∃ number stats, s.scan.answered (answersTo number xs) = .done (snapshot, stats)) ∧
        SameLookups { ofSettings s with snapshot } c) ∧
      (∀ o, (c.step o).1.snapshot ≠ c.snapshot → ∃ scan ∈ c.scans, o = .takeOver scan.number ∧
        ∃ stats, scan.task = .done ((c.step o).1.snapshot, stats)) ∧
      (∀ o number stats, (c.step o).2.1 = .settled number stats →
        s.scan.answered (answersTo number xs) = .done (c.snapshot, stats)) ∧
      (xs.Pairwise fun x y => ∀ number stats, x.reply = .settled number stats →
        y.reply.number? ≠ some number) ∧
      ∀ scan ∈ c.scans, (∃ o, c.Serves scan.number o) ∧
        ∀ history, c.Served scan.number history → c.Settles scan.number history := by
  intro xs c
  have h : Sound s (fun number => answersTo number xs) c := sound_after s os
  have hstep (o : Occurrence) := step_spec c o
  refine ⟨?_, fun scan hmem => ⟨(h.onCourse scan hmem).task_eq, ?_⟩,
    fun hnil => ⟨?_, fun x hx hreply => ?_⟩, ⟨c.snapshot, h.whole, ?_⟩,
    fun o => (hstep o).takeOver_of_snapshot_ne, fun o number stats hreply => ?_,
    pairwise_episodes (sound_ofSettings s) os,
    fun scan hmem => ⟨?_, fun history => h.settles hmem⟩⟩
  · cases hpending : c.pending with
    | none => simp [pending_eq_none_iff.mp hpending]
    | some number =>
      obtain ⟨scan, hscans, rfl⟩ := exists_scan_of_pending hpending
      simp [hscans]
  · rw [Catalog.step, requestBuild_of_pending (eq_of_mem_scans hmem).2]
  · rw [Catalog.step, requestBuild_of_idle (pending_eq_none_iff.mpr hnil)]
  · exact absurd (number_lt_of_mem_episodes (sound_ofSettings s) hx hreply) (Nat.lt_irrefl _)
  · refine .of_snapshot (fun _ => rfl) (fun _ _ => rfl) ?_
    rw [prefixRules, h.settings_eq, h.inherited_eq]
    rfl
  · exact h.ended_of_settled (hreply ▸ hstep o)
  · obtain ⟨k, hserves⟩ := h.exists_serves_inTurn (.ok []) (.ok []) hmem
    exact ⟨_, hserves⟩

/-- Two requests join one scan. It is served a listing and a file in turn, and the file is
counted. -/
example :
    let s := { CatalogSettings.standard with sourceRoots := [[0x64]], sourceExtensions := [[]] }
    let c := (ofSettings s).after [.request, .request]
    let history := inTurn (.ok [⟨[0x61], false⟩]) (.ok []) 0
    c.pending = some 0 ∧
      ((List.range 5).map fun k => ((c.stateAt history k).step (history k)).2.1) =
        [.nothing, .nothing, .nothing, .settled 0 ⟨1, 0, 0, 0⟩, .nothing] := by
  cbv

end Catalog

end SexpEditing
