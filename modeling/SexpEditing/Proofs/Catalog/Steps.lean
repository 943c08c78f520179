import SexpEditing.Proofs.Catalog.Scanning

/-!
# Requests, answers and the ends of scans

Requests for a build, answers to reads, and the ends of scans may follow one another in any order.
What one of them can do is told once; from that it follows that there is at most one scan at a time,
that it is left where its answers brought it, and that names are taken over from scans that have
read all they read.

## Main definitions

* `Catalog.Episode`, `Catalog.episodes`: what happens in a history, one occurrence after the other
* `Catalog.Episode.answersTo`: the answers that a scan was given
* `Catalog.Step`: all that can happen to a catalogue
* `Catalog.Serves`: an occurrence for which a scan waits
* `Catalog.Sound`: what holds in every history

## Main results

* `Catalog.step_spec`, `Catalog.Sound.step`: one occurrence
* `Catalog.sound_after`: every history
* `Catalog.pairwise_episodes`: a build is over once, and nobody joins it after that
-/

namespace SexpEditing

namespace Catalog

variable {c d : Catalog} {s : CatalogSettings}

/-! ### Histories -/

/-- One occurrence in a history of a catalogue. -/
structure Episode where
  before : Catalog
  occurrence : Occurrence
  after : Catalog
  reply : Reply

/-- What happens to a catalogue, one occurrence after the other. -/
def episodes (c : Catalog) : List Occurrence → List Episode
  | [] => []
  | o :: os => ⟨c, o, (c.step o).1, (c.step o).2.1⟩ :: episodes (c.step o).1 os

/-- A catalogue after some occurrences. -/
def after (c : Catalog) (os : List Occurrence) : Catalog := os.foldl (fun c o => (c.step o).1) c

/-- The answers that the scan with a number was given while it was under way. -/
def Episode.answersTo (number : Nat) (xs : List Episode) : List ReadAnswer :=
  xs.filterMap fun x =>
    match x.occurrence with
    | .answer n answer =>
      if n = number ∧ (x.before.scan? number).isSome then some answer else none
    | .request | .takeOver _ | .settle _ => none

theorem answersTo_append (number : Nat) (xs ys : List Episode) :
    Episode.answersTo number (xs ++ ys) =
      Episode.answersTo number xs ++ Episode.answersTo number ys :=
  List.filterMap_append

/-! ### One occurrence -/

/-- An occurrence for which the scan with a number waits. -/
def Serves (c : Catalog) (number : Nat) : Occurrence → Prop
  | .request => False
  | .answer n answer =>
    n = number ∧ ∃ scan, c.scan? number = some scan ∧ scan.task.Takes answer
  | .takeOver n =>
    n = number ∧ ∃ result, c.scan? number = some ⟨number, .done result, false⟩
  | .settle n =>
    n = number ∧ ∃ result, c.scan? number = some ⟨number, .done result, true⟩

/-- All that one occurrence can do to a catalogue. -/
inductive Step (c : Catalog) : Occurrence → Catalog → Reply → Prop
  | start (h : c.scans = []) :
    Step c .request
      ({ c with started := c.started + 1 }.withScan ⟨c.started, c.settings.scan.advance.1, false⟩)
      (.joined c.started)
  | join {scan : CatalogScan} (h : c.scans = [scan]) : Step c .request c (.joined scan.number)
  | answer {scan : CatalogScan} (h : c.scans = [scan]) (answer : ReadAnswer) :
    Step c (.answer scan.number answer)
      (c.withScan { scan with task := (scan.task.resume answer).1 }) .nothing
  | takeOver {number : Nat} {snapshot : CatalogSnapshot} {stats : CatalogStats}
    (h : c.scans = [⟨number, .done (snapshot, stats), false⟩]) :
    Step c (.takeOver number)
      { c.withScan ⟨number, .done (snapshot, stats), true⟩ with snapshot } .nothing
  | settle {number : Nat} {snapshot : CatalogSnapshot} {stats : CatalogStats}
    (h : c.scans = [⟨number, .done (snapshot, stats), true⟩]) :
    Step c (.settle number) c.withoutScan (.settled number stats)
  /-- Nothing happens: no scan is given an answer, and none waits for the occurrence. -/
  | skip {o : Occurrence} (h : ∀ scan ∈ c.scans, ∀ answer, o ≠ .answer scan.number answer)
    (hserves : ∀ number, ¬c.Serves number o) : Step c o c .nothing

theorem mem_of_scans_eq {scan : CatalogScan} (h : c.scans = [scan]) : scan ∈ c.scans :=
  h ▸ List.mem_singleton_self scan

theorem scan?_of_scans_eq {scan : CatalogScan} (h : c.scans = [scan]) (number : Nat) :
    c.scan? number = if scan.number = number then some scan else none := by
  rw [scan?, h, List.find?_singleton]
  simp only [beq_iff_eq]

theorem changeScan_eq {scan : CatalogScan} (h : c.scans = [scan]) (f : CatalogScan → CatalogScan)
    (hf : ∀ scan, (f scan).number = scan.number) :
    c.changeScan scan.number f hf = c.withScan (f scan) := by
  simp only [changeScan, withScan, hf, (eq_of_mem_scans (mem_of_scans_eq h)).2, h,
    List.map_singleton, if_true]

theorem scans_eq_of_scan? {number : Nat} {scan : CatalogScan} (h : c.scan? number = some scan) :
    c.scans = [scan] :=
  (eq_of_mem_scans (mem_of_scan? h).1).1

theorem scan?_of_mem {scan : CatalogScan} (h : scan ∈ c.scans) :
    c.scan? scan.number = some scan := by
  rw [scan?_of_scans_eq (eq_of_mem_scans h).1, if_pos rfl]

/-- The end of a build, if its scan was taken over. -/
theorem settle_cases (c : Catalog) (n : Nat) :
    (∃ result : CatalogSnapshot × CatalogStats, c.scan? n = some ⟨n, .done result, true⟩ ∧
        c.settle n =
          (c.withoutScan, some result.2)) ∨
      (∀ result, c.scan? n ≠ some ⟨n, .done result, true⟩) ∧ c.settle n = (c, none) := by
  rw [settle]
  split
  · next number snapshot stats hscan =>
    obtain ⟨-, rfl⟩ := mem_of_scan? hscan
    exact .inl ⟨(snapshot, stats), hscan, by simp only [filter_scans_of_scan? hscan, withoutScan]⟩
  · next hother => exact .inr ⟨fun result hscan => hother _ _ _ hscan, rfl⟩

/-- **One occurrence.** -/
theorem step_spec (c : Catalog) (o : Occurrence) : Step c o (c.step o).1 (c.step o).2.1 := by
  cases o with
  | request =>
    rw [step]
    cases hpending : c.pending with
    | none =>
      rw [requestBuild_of_idle hpending]
      exact .start (pending_eq_none_iff.mp hpending)
    | some number =>
      obtain ⟨scan, hscans, rfl⟩ := exists_scan_of_pending hpending
      rw [requestBuild_of_pending hpending]
      exact .join hscans
  | answer n answer =>
    rw [step, deliver]
    cases hscan : c.scan? n with
    | none =>
      refine .skip (fun scan hmem answer' heq => ?_) fun number hserves => ?_
      · cases heq
        exact absurd hmem (by simpa using List.find?_eq_none.mp hscan scan)
      · obtain ⟨rfl, scan, hsome, -⟩ := hserves
        rw [hscan] at hsome
        cases hsome
    | some scan =>
      obtain ⟨-, rfl⟩ := mem_of_scan? hscan
      simp only [changeScan_eq (scans_eq_of_scan? hscan)]
      exact .answer (scans_eq_of_scan? hscan) answer
  | takeOver n =>
    rw [step, takeOver]
    split
    · next number snapshot stats hscan =>
      obtain ⟨-, rfl⟩ := mem_of_scan? hscan
      rw [changeScan_eq (scans_eq_of_scan? hscan)]
      exact .takeOver (scans_eq_of_scan? hscan)
    · next hother =>
      refine .skip (fun scan hmem answer heq => ?_) fun number hserves => ?_
      · cases heq
      · obtain ⟨rfl, result, hscan⟩ := hserves
        exact hother _ _ _ hscan
  | settle n =>
    rw [step]
    rcases settle_cases c n with ⟨⟨snapshot, stats⟩, hscan, hsettle⟩ | ⟨hother, hsettle⟩
    · simp only [hsettle]
      exact .settle (scans_eq_of_scan? hscan)
    · simp only [hsettle]
      refine .skip (fun scan hmem answer heq => ?_) fun number hserves => ?_
      · cases heq
      · obtain ⟨rfl, result, hscan⟩ := hserves
        exact hother result hscan

/-! ### Every history -/

/-- What holds of a scan under way: it is left where its answers brought it, and if it was taken
over, the names are those that it found. -/
structure OnCourse (s : CatalogSettings) (given : Nat → List ReadAnswer) (c : Catalog)
    (scan : CatalogScan) : Prop where
  number_lt : scan.number < c.started
  task_eq : scan.task = s.scan.answered (given scan.number)
  takenOver : scan.takenOver = true → ∃ stats, scan.task = .done (c.snapshot, stats)

/-- What holds of a catalogue whose scans were given some answers: the names are those of a scan
that has read all it reads. -/
structure Sound (s : CatalogSettings) (given : Nat → List ReadAnswer) (c : Catalog) : Prop where
  settings_eq : c.settings = s
  inherited_eq : c.inherited = []
  onCourse : ∀ scan ∈ c.scans, OnCourse s given c scan
  given_eq_nil : ∀ number, c.started ≤ number → given number = []
  whole : c.snapshot = .empty ∨
    ∃ number stats, s.scan.answered (given number) = .done (c.snapshot, stats)

theorem sound_ofSettings (s : CatalogSettings) : Sound s (fun _ => []) (ofSettings s) where
  settings_eq := rfl
  inherited_eq := rfl
  onCourse _ h := nomatch h
  given_eq_nil _ _ := rfl
  whole := .inl rfl

variable {given : Nat → List ReadAnswer} {o : Occurrence} {reply : Reply}

theorem Sound.congr {given' : Nat → List ReadAnswer} (h : Sound s given c)
    (heq : ∀ number, given' number = given number) : Sound s given' c :=
  funext heq ▸ h

theorem answersTo_skip (h : ∀ scan ∈ c.scans, ∀ answer, o ≠ .answer scan.number answer)
    (number : Nat) : Episode.answersTo number [⟨c, o, d, reply⟩] = [] := by
  cases o with
  | request | takeOver | settle => rfl
  | answer n a =>
    simp only [Episode.answersTo, List.filterMap_cons, List.filterMap_nil]
    rw [if_neg]
    rintro ⟨rfl, hsome⟩
    obtain ⟨scan, hscan⟩ := Option.isSome_iff_exists.mp hsome
    obtain ⟨hmem, rfl⟩ := mem_of_scan? hscan
    exact h scan hmem a rfl

theorem answersTo_answer {scan : CatalogScan} (h : c.scans = [scan]) (a : ReadAnswer)
    (number : Nat) :
    Episode.answersTo number [⟨c, .answer scan.number a, d, reply⟩] =
      if scan.number = number then [a] else [] := by
  simp only [Episode.answersTo, List.filterMap_cons, List.filterMap_nil, scan?_of_scans_eq h]
  by_cases hn : scan.number = number <;> simp [hn]

/-- **One occurrence** leaves the catalogue sound. -/
theorem Sound.step (h : Sound s given c) (hstep : Step c o d reply) :
    Sound s (fun number => given number ++ Episode.answersTo number [⟨c, o, d, reply⟩]) d := by
  cases hstep with
  | start hscans =>
    suffices hd : Sound s given _ from hd.congr fun number => List.append_nil _
    -- the number is new, and no scan was given an answer under it
    have hnil := h.given_eq_nil c.started (Nat.le_refl _)
    exact {
      h with
      onCourse := List.forall_mem_singleton.mpr {
        number_lt := Nat.lt_succ_self c.started
        task_eq := by rw [hnil, h.settings_eq]; rfl
        takenOver := fun htaken => nomatch htaken }
      given_eq_nil := fun number hle => h.given_eq_nil number (Nat.le_of_succ_le hle) }
  | join hscans => exact h.congr fun number => List.append_nil _
  | @answer scan hscans a =>
    have hscan := h.onCourse scan (mem_of_scans_eq hscans)
    -- only the answers to this scan grow, and a scan that has come to its end takes no more
    simp only [answersTo_answer hscans]
    exact {
      h with
      onCourse := List.forall_mem_singleton.mpr {
        number_lt := hscan.number_lt
        task_eq := by
          simp only [if_true]
          rw [FileTask.answered_concat, ← hscan.task_eq]
        takenOver := fun htaken => by
          obtain ⟨stats, hdone⟩ := hscan.takenOver htaken
          exact ⟨stats, by simp only [hdone]; rfl⟩ }
      given_eq_nil := by
        intro number hle
        have hne : scan.number ≠ number := Nat.ne_of_lt (Nat.lt_of_lt_of_le hscan.number_lt hle)
        rw [h.given_eq_nil number hle, if_neg hne, List.append_nil]
      whole := h.whole.imp_right fun ⟨number, stats, hdone⟩ =>
        ⟨number, stats, FileTask.answered_append_of_done hdone _⟩ }
  | @takeOver number snapshot stats hscans =>
    suffices hd : Sound s given _ from hd.congr fun number => List.append_nil _
    -- the new names are what the answers to this scan amount to
    have hscan := h.onCourse _ (mem_of_scans_eq hscans)
    exact {
      h with
      onCourse := List.forall_mem_singleton.mpr {
        number_lt := hscan.number_lt
        task_eq := hscan.task_eq
        takenOver := fun _ => ⟨stats, rfl⟩ }
      whole := .inr ⟨number, stats, hscan.task_eq.symm⟩ }
  | settle hscans =>
    suffices hd : Sound s given _ from hd.congr fun number => List.append_nil _
    exact {
      h with
      onCourse := fun _ hscan => nomatch hscan }
  | skip hne => exact h.congr fun number => by rw [answersTo_skip hne, List.append_nil]

/-- **A history** leaves the catalogue sound. -/
theorem Sound.after (h : Sound s given c) (os : List Occurrence) :
    Sound s (fun number => given number ++ Episode.answersTo number (c.episodes os))
      (c.after os) := by
  induction os generalizing c given with
  | nil => exact h.congr fun number => List.append_nil _
  | cons o os ih =>
    refine (ih (h.step (step_spec c o))).congr fun number => ?_
    rw [List.append_assoc, ← answersTo_append]
    rfl

theorem sound_after (s : CatalogSettings) (os : List Occurrence) :
    Sound s (fun number => Episode.answersTo number ((ofSettings s).episodes os))
      ((ofSettings s).after os) :=
  ((sound_ofSettings s).after os).congr fun _ => (List.nil_append _).symm

/-! ### Replies -/

/-- The number of the scan that a reply is about. -/
def Reply.number? : Reply → Option Nat
  | .nothing => none
  | .joined number => some number
  | .settled number _ => some number

/-- A number that is in use, or may still be given to a scan. -/
def Current (c : Catalog) (number : Nat) : Prop :=
  (∃ scan ∈ c.scans, scan.number = number) ∨ c.started ≤ number

theorem Step.current_of_reply (h : Step c o d reply) {number : Nat}
    (hreply : reply.number? = some number) : c.Current number := by
  cases h with
  | start => exact .inr (Nat.le_of_eq (Option.some.inj hreply))
  | join hscans => exact .inl ⟨_, mem_of_scans_eq hscans, Option.some.inj hreply⟩
  | settle hscans => exact .inl ⟨_, mem_of_scans_eq hscans, Option.some.inj hreply⟩
  | answer | takeOver | skip => cases hreply

/-- A number that was not current does not become so. -/
theorem Step.current_of_current (h : Step c o d reply) {number : Nat} (hd : d.Current number) :
    c.Current number := by
  cases h with
  | start =>
    obtain ⟨scan, hscan, hnumber⟩ | hle := hd
    · obtain rfl := List.mem_singleton.mp hscan
      exact .inr (Nat.le_of_eq hnumber)
    · exact .inr (Nat.le_of_succ_le hle)
  | answer hscans | takeOver hscans =>
    refine hd.imp_left fun ⟨scan, hscan, hnumber⟩ => ?_
    obtain rfl := List.mem_singleton.mp hscan
    exact ⟨_, mem_of_scans_eq hscans, hnumber⟩
  | settle => exact .inr (hd.resolve_left fun ⟨_, hscan, _⟩ => nomatch hscan)
  | join | skip => exact hd

theorem Step.number_lt (h : Step c o d reply) (hc : Sound s given c) {number : Nat}
    (hreply : reply.number? = some number) : number < d.started := by
  cases h with
  | start =>
    obtain rfl := Option.some.inj hreply
    exact Nat.lt_succ_self c.started
  | join hscans =>
    obtain rfl := Option.some.inj hreply
    exact (hc.onCourse _ (mem_of_scans_eq hscans)).number_lt
  | settle hscans =>
    obtain rfl := Option.some.inj hreply
    exact (hc.onCourse _ (mem_of_scans_eq hscans)).number_lt
  | answer | takeOver | skip => cases hreply

theorem Step.started_le (h : Step c o d reply) : c.started ≤ d.started := by
  cases h with
  | start => exact Nat.le_succ c.started
  | join | answer | takeOver | settle | skip => exact Nat.le_refl c.started

theorem started_le_after (h : Sound s given c) (os : List Occurrence) :
    c.started ≤ (c.after os).started := by
  induction os generalizing c given with
  | nil => exact Nat.le_refl c.started
  | cons o os ih =>
    have hstep := step_spec c o
    exact Nat.le_trans hstep.started_le (ih (h.step hstep))

theorem current_of_mem_episodes (h : Sound s given c) {os : List Occurrence} {x : Episode}
    (hx : x ∈ c.episodes os) {number : Nat} (hreply : x.reply.number? = some number) :
    c.Current number := by
  induction os generalizing c given with
  | nil => cases hx
  | cons o os ih =>
    have hstep := step_spec c o
    rw [episodes] at hx
    rcases List.mem_cons.mp hx with rfl | hx
    · exact hstep.current_of_reply hreply
    · exact hstep.current_of_current (ih (h.step hstep) hx)

/-- A scan is settled once, and no request joins it after that. -/
theorem pairwise_episodes (h : Sound s given c) (os : List Occurrence) :
    (c.episodes os).Pairwise fun x y => ∀ number stats, x.reply = .settled number stats →
      y.reply.number? ≠ some number := by
  induction os generalizing c given with
  | nil => exact .nil
  | cons o os ih =>
    have hstep := step_spec c o
    refine .cons (fun y hy number stats hreply hagain => ?_) (ih (h.step hstep))
    have hcurrent := current_of_mem_episodes (h.step hstep) hy hagain
    generalize (c.step o).1 = d, (c.step o).2.1 = reply at hstep hreply hcurrent
    subst hreply
    cases hstep with
    | settle hscans =>
      -- the scan is gone, and its number was used up
      have hlt := (h.onCourse _ (mem_of_scans_eq hscans)).number_lt
      obtain ⟨scan, hscan, -⟩ | hle := hcurrent
      · cases hscan
      · exact absurd hlt (Nat.not_lt.mpr hle)

/-- The numbers that were given to requests so far are lower than the next one. -/
theorem number_lt_of_mem_episodes (h : Sound s given c) {os : List Occurrence} {x : Episode}
    (hx : x ∈ c.episodes os) {number : Nat} (hreply : x.reply.number? = some number) :
    number < (c.after os).started := by
  induction os generalizing c given with
  | nil => cases hx
  | cons o os ih =>
    have hstep := step_spec c o
    rw [episodes] at hx
    rcases List.mem_cons.mp hx with rfl | hx
    · exact Nat.lt_of_lt_of_le (hstep.number_lt h hreply) (started_le_after (h.step hstep) os)
    · exact ih (h.step hstep) hx

end Catalog

end SexpEditing
