import SexpEditing.Proofs.Indent.Changes

/-!
# What indenting a region changes

A line of a region can be edited in its own turn, and again when closer lines further down are
aligned. The edits do not disagree: a bare closer line is put under its opener each time, and its
opener does not move. So no line is changed twice, and the number that is answered is the number of
lines that differ.

## Main definitions

* `Document.RegionRun`: what a run over lines of a region has done so far

## Main results

* `Document.RegionRun.step`: the step for one line
* `Document.exists_indentLines_eq`: a whole run
* `Document.indentRegion_changedLines`: which lines a region changes, and how, and how many
-/

namespace SexpEditing

open CodeUnit

namespace Document

variable {d x : Document}

/-! ### Bare closer lines -/

theorem Reindents.isBareCloserLine_lineOf (h : d.Reindents x) {k : Nat} (hk : k < d.lines.length) :
    isBareCloserLine (x.lineOf k) = isBareCloserLine (d.lineOf k) := by
  have hk' := h.lt_length hk
  rw [Document.isBareCloserLine_lineOf d hk, Document.isBareCloserLine_lineOf x hk',
    h.body_eq hk hk']

theorem Reindents.bareRun_iff (h : d.Reindents x) {i k : Nat} (hk : k ≤ d.lines.length) :
    x.BareRun i k ↔ d.BareRun i k := by
  apply forall_congr'
  intro m
  apply imp_congr_right
  intro _
  apply imp_congr_right
  intro hmk
  rw [h.isBareCloserLine_lineOf (Nat.lt_of_lt_of_le hmk hk)]

theorem isBareCloser_of_lineOf {k : Nat} (h : isBareCloserLine (d.lineOf k) = true) :
    d.IsBareCloser k := by
  have hk : k < d.lines.length := by
    by_contra hk
    rw [lineOf, List.getElem?_eq_none (Nat.le_of_not_lt hk)] at h
    cases h
  exact ⟨_, d.lineText_eq hk, h⟩

/-- A bare closer line is not blank. -/
theorem not_isBlank_of_isBareCloserLine {k : Nat} (hk : k < d.lines.length)
    (h : isBareCloserLine (d.lineOf k) = true) : ¬ d.IsBlank k := by
  intro hblank
  rw [IsBlank, List.getElem?_eq_getElem hk, Option.getD_some] at hblank
  rw [isBareCloserLine_lineOf d hk, hblank] at h
  cases h

theorem BareRun.mono {i j k : Nat} (h : d.BareRun i k) (hjk : j ≤ k) : d.BareRun i j := by
  intro m him hmj
  exact h m him (Nat.lt_of_lt_of_le hmj hjk)

theorem Obeys.of_getElem?_eq {y : Document} {edit : IndentEdit} (h : x.Obeys edit) {k : Nat}
    (hline : edit.line = k) (heq : y.lines[k]? = x.lines[k]?) : y.Obeys edit := by
  obtain ⟨i, hi, hi', hblanks⟩ := h
  obtain rfl : i = k := Int.ofNat.inj (hi'.symm.trans hline)
  rw [List.getElem?_eq_getElem hi] at heq
  obtain ⟨hy, hsame⟩ := List.getElem?_eq_some_iff.mp heq
  refine ⟨i, hy, hi', ?_⟩
  rw [hsame, hblanks]

/-! ### The run over the lines of a region -/

/-- What a run over lines of a region that begins at `start` has done to a document when it comes to
line `k`, having counted `changed` lines. -/
structure RegionRun (d x : Document) (table : IndentTable) (start k changed : Nat) : Prop where
  start_le : start ≤ k
  reindents : d.Reindents x
  /-- It has counted the lines that differ. -/
  card_eq : (d.changedLines x).card = changed
  /-- It has not touched the lines that are still to come. -/
  later_eq : ∀ j, k ≤ j → x.lines[j]? = d.lines[j]?
  /-- The lines that differ belong to the region, or to the bare closer lines directly above. -/
  place : ∀ j ∈ d.changedLines x, (start ≤ j ∨ d.BareRun j start) ∧ ¬ d.IsBlank j
  /-- The blanks of the lines that differ are spaces. -/
  spaces : ∀ j ∈ d.changedLines x, ∃ l n, x.lines[j]? = some l ∧ l.blanks = List.replicate n space
  /-- A bare closer line that could be aligned once more is as it was, or aligned already. -/
  aligned : ∀ j < k, d.BareRun j k → x.lines[j]? = d.lines[j]? ∨
    ∀ column, x.closerColumnAt table.maxSteps j = some column → x.Obeys ⟨j, column⟩

namespace RegionRun

variable {table : IndentTable} {start k changed : Nat}

theorem init (d : Document) (table : IndentTable) (start : Nat) :
    d.RegionRun d table start start 0 where
  start_le := Nat.le_refl start
  reindents := .refl d
  card_eq := by rw [changedLines_self, Finset.card_empty]
  later_eq _ _ := rfl
  place j hj := by
    rw [changedLines_self] at hj
    cases hj
  spaces j hj := by
    rw [changedLines_self] at hj
    cases hj
  aligned _ _ _ := .inl rfl

section Step

variable (h : d.RegionRun x table start k changed) (hk : k < d.lines.length)
include h hk

/-- A blank line is passed over. -/
theorem step_blank (hblank : d.IsBlank k) : d.RegionRun x table start (k + 1) changed where
  start_le := Nat.le_succ_of_le h.start_le
  reindents := h.reindents
  card_eq := h.card_eq
  later_eq j hj := h.later_eq j (Nat.le_of_succ_le hj)
  place := h.place
  spaces := h.spaces
  aligned j hj hrun := by
    -- no run of bare closer lines passes over a blank line
    have hbare := hrun k (Nat.lt_succ_iff.mp hj) (Nat.lt_succ_self k)
    exact absurd hblank (not_isBlank_of_isBareCloserLine hk hbare)

/-- An edit for the line is for a line that is as it was, or that is indented so already. -/
theorem fresh {edit : IndentEdit} (hedit : edit ∈ x.editsFor table k) :
    x.Obeys edit ∨ ∀ j : Nat, edit.line = j → x.lines[j]? = d.lines[j]? := by
  obtain ⟨-, rfl | ⟨i, hi⟩⟩ := x.exists_line_of_mem_editsFor hedit
  · -- the line itself had no turn yet
    right
    intro j hj
    exact h.later_eq j (Int.ofNat.inj hj).le
  · have hrun : d.BareRun i k := (h.reindents.bareRun_iff (Nat.le_of_lt hk)).mp hi.bare
    obtain ⟨line, column⟩ := edit
    obtain rfl : line = i := hi.line_eq
    rcases h.aligned i hi.lt hrun with hsame | haligned
    · right
      intro j hj
      obtain rfl : i = j := Int.ofNat.inj hj
      exact hsame
    · left
      exact haligned column hi.column_eq

/-- Where an edit for the line can be: in the region, or in the bare closer lines directly above. -/
theorem place_of_mem_editsFor (hblank : ¬ d.IsBlank k) {edit : IndentEdit}
    (hedit : edit ∈ x.editsFor table k) {j : Nat} (hj : edit.line = j) :
    (start ≤ j ∨ d.BareRun j start) ∧ ¬ d.IsBlank j := by
  obtain ⟨i, hi, hik, hrun⟩ := exists_bareRun_of_mem_editsFor hedit
  obtain rfl : i = j := Int.ofNat.inj (hi.symm.trans hj)
  rw [h.reindents.bareRun_iff (Nat.le_of_lt hk)] at hrun
  constructor
  · right
    exact hrun.mono h.start_le
  · rcases Nat.lt_or_eq_of_le hik with hlt | rfl
    · exact not_isBlank_of_isBareCloserLine (Nat.lt_trans hlt hk) (hrun i (Nat.le_refl i) hlt)
    · exact hblank

/-- After the edits for a bare closer line, the lines of the run that it ends are aligned. -/
theorem aligned_step (hbare : isBareCloserLine (d.lineOf k) = true) {j : Nat} (hjk : j ≤ k)
    (hrun : d.BareRun j k) :
    let y := (x.applyIndentEdits (x.editsFor table k)).1
    y.lines[j]? = d.lines[j]? ∨
      ∀ column, y.closerColumnAt table.maxSteps j = some column → y.Obeys ⟨j, column⟩ := by
  have hkx := h.reindents.lt_length hk
  have hbarex : isBareCloserLine (x.lineOf k) = true := by
    rw [h.reindents.isBareCloserLine_lineOf hk]
    exact hbare
  -- all lines that are edited are closer lines, so no opener moves
  have hkeeps := keepsAbove_applyIndentEdits table hkx fun z hz edit hedit i hi => by
    obtain ⟨m, hm, hmk, hrunx⟩ := exists_bareRun_of_mem_editsFor hedit
    obtain rfl : m = i := Int.ofNat.inj (hm.symm.trans hi)
    apply not_joined_of_isCloserLine
    apply isCloserLine_of_isBareCloserLine
    rw [hz.isBareCloserLine_lineOf (Nat.lt_of_le_of_lt hmk hkx)]
    rcases Nat.lt_or_eq_of_le hmk with hlt | rfl
    · exact hrunx m (Nat.le_refl m) hlt
    · exact hbarex
  have hcolumn := (hkeeps.mono hjk).closerColumnAt_eq table.maxSteps (Nat.lt_of_le_of_lt hjk hkx)
  have hobeys {edit : IndentEdit} (hedit : edit ∈ x.editsFor table k) :=
    obeys_applyIndentEdits table hkx hedit
  have hframe := x.getElem?_applyIndentEdits table k j
  generalize (x.applyIndentEdits (x.editsFor table k)).1 = y at hcolumn hobeys hframe ⊢
  show y.lines[j]? = d.lines[j]? ∨ _
  rcases hframe with hsame | ⟨edit, hedit, hline, -⟩
  · rw [hsame]
    rcases Nat.lt_or_eq_of_le hjk with hlt | rfl
    · -- it was not touched, so it is as it was before the line's turn
      rcases h.aligned j hlt hrun with hd | haligned
      · exact .inl hd
      · right
        intro column hy
        rw [hcolumn] at hy
        exact (haligned column hy).of_getElem?_eq rfl hsame
    · exact .inl (h.later_eq j (Nat.le_refl j))
  · right
    intro column hy
    rw [hcolumn] at hy
    -- whatever the edit is for, its column is that of the opener
    have hedit' : edit = ⟨j, column⟩ := by
      obtain ⟨-, rfl | ⟨i, hi⟩⟩ := x.exists_line_of_mem_editsFor hedit
      · obtain rfl : k = j := Int.ofNat.inj hline
        rw [ownColumn_of_closerColumnAt hbarex hy]
      · obtain rfl : i = j := Int.ofNat.inj (hi.line_eq.symm.trans hline)
        obtain ⟨line, column'⟩ := edit
        obtain rfl : line = i := hline
        obtain rfl : column = column' := Option.some.inj (hy.symm.trans hi.column_eq)
        rfl
    rw [← hedit']
    exact hobeys hedit

/-- **The edits for a line** of the region that is not blank. -/
theorem step_edits (hblank : ¬ d.IsBlank k) :
    ∃ n, (x.applyIndentEdits (x.editsFor table k)).2 = .ok n ∧
      d.RegionRun (x.applyIndentEdits (x.editsFor table k)).1 table start (k + 1)
        (changed + n) := by
  have hkx := h.reindents.lt_length hk
  obtain ⟨y, m, happly, hxy⟩ := applyIndentEdits_reindents table hkx
  obtain ⟨n, hn, hcard⟩ : ∃ n, (x.applyIndentEdits (x.editsFor table k)).2 = .ok n ∧
      (d.changedLines (x.applyIndentEdits (x.editsFor table k)).1).card =
        (d.changedLines x).card + n := by
    apply card_changedLines_applyInOrder h.reindents.length_eq
    · intro edit hedit
      obtain ⟨i, hi, hlt, -⟩ := x.not_startsInside_of_mem_editsFor hkx (mem_bottomUp.mp hedit)
      exact ⟨i, hi, hlt⟩
    · intro edit hedit other hother
      exact column_eq_of_mem_editsFor (Nat.le_refl k) (mem_bottomUp.mp hedit)
        (mem_bottomUp.mp hother)
    · intro edit hedit
      exact h.fresh hk (mem_bottomUp.mp hedit)
  have hframe := x.getElem?_applyIndentEdits table k
  refine ⟨n, hn, ?_⟩
  constructor
  case start_le => exact Nat.le_succ_of_le h.start_le
  case reindents =>
    rw [happly]
    exact h.reindents.trans hxy
  case card_eq => rw [hcard, h.card_eq]
  case later_eq =>
    -- edits go up from the line
    intro j hj
    rw [← h.later_eq j (Nat.le_of_succ_le hj)]
    by_contra hne
    have hle := (bareRun_of_applyIndentEdits_ne hne).1
    exact Nat.not_lt_of_le hle hj
  case place =>
    -- a line that differs now differed before, or one of the edits is for it
    intro j hj
    rcases hframe j with hsame | ⟨edit, hedit, hline, -⟩
    · rw [mem_changedLines, hsame, ← mem_changedLines] at hj
      exact h.place j hj
    · exact h.place_of_mem_editsFor hk hblank hedit hline
  case spaces =>
    intro j hj
    rcases hframe j with hsame | ⟨edit, hedit, hline, l, -, hl⟩
    · rw [mem_changedLines, hsame, ← mem_changedLines] at hj
      rw [hsame]
      exact h.spaces j hj
    · exact ⟨_, _, hl, Text.blanks_indented edit.column l⟩
  case aligned =>
    intro j hj hrun
    exact h.aligned_step hk (hrun k (Nat.lt_succ_iff.mp hj) (Nat.lt_succ_self k))
      (Nat.lt_succ_iff.mp hj) (hrun.mono (Nat.le_succ k))

/-- **One line of the region.** -/
theorem step : ∃ y n, x.indentRegionLine k table = (y, .ok n) ∧
    d.RegionRun y table start (k + 1) (changed + n) := by
  have hkx := h.reindents.lt_length hk
  rw [x.indentRegionLine_eq table hkx]
  by_cases hblank : d.IsBlank k
  · have hblankx := (h.reindents.isBlank_iff hk).mpr hblank
    rw [if_pos ((isBlank_iff hkx).mpr hblankx)]
    exact ⟨x, 0, rfl, h.step_blank hk hblank⟩
  · have hblankx : ¬ x.IsBlank k := fun hx => hblank ((h.reindents.isBlank_iff hk).mp hx)
    rw [if_neg fun hx => hblankx ((isBlank_iff hkx).mp hx)]
    obtain ⟨n, hn, hrun⟩ := h.step_edits hk hblank
    exact ⟨_, n, Prod.ext rfl hn, hrun⟩

end Step

end RegionRun

/-- **A run over the lines** of a region. -/
theorem exists_indentLines_eq {table : IndentTable} {start k n changed : Nat}
    (h : d.RegionRun x table start k changed)
    (hn : ∀ i, k ≤ i → i < k + n → i < d.lines.length) :
    ∃ y m, x.indentLines table ((List.range' k n).map fun i : Nat => (i : Int)) = (y, .ok m) ∧
      d.RegionRun y table start (k + n) (changed + m) := by
  -- on the lines that are left; `RegionRun` says all about those that are done
  induction n generalizing x k changed with
  | zero => exact ⟨x, 0, rfl, h⟩
  | succ n ih =>
    obtain ⟨y, m, hline, hy⟩ := h.step (hn k (Nat.le_refl k) (by omega))
    obtain ⟨z, m', hrest, hz⟩ := ih hy fun i hi hin => hn i (by omega) (by omega)
    refine ⟨z, m + m', ?_, ?_⟩
    · rw [List.range'_succ, List.map_cons, indentLines, hline]
      simp only [hrest]
      rfl
    · rwa [Nat.add_assoc k, Nat.add_comm 1 n, Nat.add_assoc changed] at hz

/-- **What indenting a region changes.** The lines stay as many as they were, and keep what follows
their leading blanks. A line that differs afterwards belongs to the region, or to the run of bare
closer lines directly above the region; it was not blank, and its leading blanks are now spaces. The
number of such lines is the answer. -/
theorem indentRegion_changedLines (d : Document) (table : IndentTable) (first last : Int) :
    let d' := (d.indentRegion first last table).1
    d'.lineCount = d.lineCount ∧ d'.lines.map Text.body = d.lines.map Text.body ∧
    (∀ k ∈ d.changedLines d',
      (max 0 first ≤ k ∧ k ≤ min last (d.lineCount - 1) ∨
        k < max 0 first ∧ ∀ j : Int, k ≤ j → j < max 0 first → d.IsBareCloser j) ∧
      (∃ indentation, d.lineIndentation k = .ok indentation ∧ indentation.blank = false) ∧
      ∃ l n, d'.lines[k]? = some l ∧ l.blanks = List.replicate n space) ∧
    (d.indentRegion first last table).2 = .ok (d.changedLines d').card := by
  have hregion := d.linesFrom_eq_range' first last
  obtain ⟨y, m, hlines, h⟩ := exists_indentLines_eq (.init d table (max 0 first).toNat)
    (n := (min last (d.lines.length - 1) + 1 - max 0 first).toNat)
    fun i hi hin => by omega
  rw [← hregion] at hlines
  have hrun : d.indentRegion first last table = (y, .ok m) := hlines
  rw [hrun]
  show y.lineCount = d.lineCount ∧ y.lines.map Text.body = d.lines.map Text.body ∧ _
  refine ⟨?_, h.reindents.bodies_eq, ?_, ?_⟩
  · rw [lineCount_eq, lineCount_eq, h.reindents.length_eq]
  · intro k hk
    obtain ⟨hlt, hne⟩ := mem_changedLines.mp hk
    obtain ⟨hplace, hblank⟩ := h.place k hk
    refine ⟨?_, ?_, h.spaces k hk⟩
    · by_cases hstart : max 0 first ≤ (k : Int)
      · -- the lines after the region have had no turn
        left
        have hend : k < (max 0 first).toNat +
            (min last (d.lines.length - 1) + 1 - max 0 first).toNat := by
          by_contra hlater
          exact hne (h.later_eq k (Nat.le_of_not_lt hlater))
        rw [lineCount_eq]
        omega
      · right
        refine ⟨Int.not_le.mp hstart, fun j hj hjstart => ?_⟩
        obtain ⟨j, rfl⟩ : ∃ n : Nat, j = n := ⟨j.toNat, by omega⟩
        have hbare := hplace.resolve_left (by omega)
        exact isBareCloser_of_lineOf (hbare j (by omega) (by omega))
    · refine ⟨_, lineIndentation_of_lt d hlt, ?_⟩
      rw [← Bool.not_eq_true]
      exact fun h => hblank ((isBlank_iff hlt).mp h)
  · rw [h.card_eq, Nat.zero_add]

end Document

end SexpEditing
