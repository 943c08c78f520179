import SexpEditing.Proofs.Indent.Stable

/-!
# Indenting a region twice

A region is indented line by line, downward, and a line of closing delimiters re-aligns those above
it. Neither disturbs what is done: the edits for a line depend on the lines above it that hold
opening delimiters, and of these none is touched any more; what is re-aligned gets the column that
it has. So after a run every line of the region is indented as its edits say, and a second run finds
nothing to do.

## Main definitions

* `Document.Obeys`: a line is indented as an edit says
* `Document.Settled`: a document obeys all edits for a line

## Main results

* `Document.settled_step`: indenting a line settles it, and what is settled above stays settled
* `Document.indentLines_settled`: a run settles its lines
* `Document.indentRegion_idempotent`: a second run changes nothing
-/

namespace SexpEditing

open CodeUnit

namespace Document

/-- A line is indented as an edit says. -/
def Obeys (d : Document) (edit : IndentEdit) : Prop :=
  ∃ k, ∃ hk : k < d.lines.length, edit.line = (k : Nat) ∧
    d.lines[k].blanks = List.replicate edit.column.toNat space

/-- A document obeys all edits for a line. -/
def Settled (d : Document) (table : IndentTable) (line : Nat) : Prop :=
  ∀ edit ∈ d.editsFor table line, d.Obeys edit

/-- A line holds nothing but blanks. -/
def IsBlank (d : Document) (line : Nat) : Prop :=
  dropFinalReturn (d.lines[line]?.getD []).body = []

variable {d d' : Document}

/-! ### One edit -/

theorem Obeys.setLineIndentation_eq {edit : IndentEdit} (h : d.Obeys edit) :
    d.setLineIndentation edit.line edit.column = .ok (d, false) := by
  obtain ⟨k, hk, hline, hblanks⟩ := h
  rw [hline, setLineIndentation_of_lt d hk, if_pos (Text.indented_eq_self_iff.mpr hblanks)]

/-- An edit is made in a line of the document, and replaces the blanks of that line. -/
theorem exists_of_setLineIndentation {line column : Int} {changed : Bool}
    (h : d.setLineIndentation line column = .ok (d', changed)) :
    ∃ k, ∃ hk : k < d.lines.length, line = (k : Nat) ∧
      d'.lines = d.lines.set k (d.lines[k].indented column) := by
  cases htext : d.lineText line with
  | error e =>
    rw [setLineIndentation, lineIndentation, htext] at h
    cases h
  | ok l =>
    obtain ⟨k, rfl, hk⟩ := exists_line_of_lineText htext
    refine ⟨k, hk, rfl, ?_⟩
    rw [setLineIndentation_of_lt d hk] at h
    split at h
    · next hsame =>
      cases h
      rw [hsame, List.set_getElem_self]
    · cases h
      exact lines_setLine (not_mem_indented (not_mem_of_mem_lines (List.getElem_mem hk)) column)

/-- An edit leaves a line that obeys another edit obeying it, if both agree about the line. -/
theorem Obeys.of_setLineIndentation {edit : IndentEdit} (h : d.Obeys edit) {line column : Int}
    {changed : Bool} (hset : d.setLineIndentation line column = .ok (d', changed))
    (hagree : line = edit.line → column = edit.column) : d'.Obeys edit := by
  obtain ⟨k, hk, hline, hblanks⟩ := h
  obtain ⟨j, hj, rfl, hlines⟩ := exists_of_setLineIndentation hset
  have hk' : k < d'.lines.length := by
    rw [hlines, List.length_set]
    exact hk
  refine ⟨k, hk', hline, ?_⟩
  -- only an edit of this very line could disturb it, and that has the same column
  by_cases hjk : j = k
  · subst hjk
    simp only [hlines, List.getElem_set_self, Text.blanks_indented]
    rw [hagree hline.symm]
  · simp only [hlines]
    rw [List.getElem_set_ne hjk, hblanks]

theorem obeys_of_setLineIndentation {edit : IndentEdit} {changed : Bool}
    (h : d.setLineIndentation edit.line edit.column = .ok (d', changed)) : d'.Obeys edit := by
  obtain ⟨k, hk, hline, hlines⟩ := exists_of_setLineIndentation h
  have hk' : k < d'.lines.length := by
    rw [hlines, List.length_set]
    exact hk
  refine ⟨k, hk', hline, ?_⟩
  simp only [hlines, List.getElem_set_self, Text.blanks_indented]

/-! ### Some edits -/

/-- What each edit preserves, making them in order preserves. -/
theorem applyInOrder_preserves {P : Document → Prop} {edits : List IndentEdit}
    (hstep : ∀ edit ∈ edits, ∀ x y changed, P x →
      x.setLineIndentation edit.line edit.column = .ok (y, changed) → P y)
    (h : P d) : P (d.applyInOrder edits).1 := by
  induction edits generalizing d with
  | nil => exact h
  | cons edit rest ih =>
    rw [applyInOrder]
    cases hset : d.setLineIndentation edit.line edit.column with
    | error e => exact h
    | ok made =>
      obtain ⟨y, changed⟩ := made
      exact ih (fun e he => hstep e (List.mem_cons_of_mem edit he))
        (hstep edit (List.mem_cons_self ..) d y changed h hset)

/-- Edits that agree about every line are obeyed once they are made. -/
theorem obeys_applyInOrder {edits : List IndentEdit}
    (hlines : ∀ edit ∈ edits, ∃ k : Nat, edit.line = k ∧ k < d.lines.length)
    (hagree : ∀ edit ∈ edits, ∀ other ∈ edits, edit.line = other.line → edit.column = other.column)
    {edit : IndentEdit} (h : edit ∈ edits) : (d.applyInOrder edits).1.Obeys edit := by
  induction edits generalizing d with
  | nil => cases h
  | cons first rest ih =>
    obtain ⟨k, hline, hk⟩ := hlines first (List.mem_cons_self ..)
    obtain ⟨y, changed, hset⟩ : ∃ y changed,
        d.setLineIndentation first.line first.column = .ok (y, changed) := by
      rw [hline, setLineIndentation_of_lt d hk]
      exact ⟨_, _, rfl⟩
    rw [applyInOrder, hset]
    rcases List.mem_cons.mp h with rfl | h
    · -- the edits that follow keep it obeyed
      refine applyInOrder_preserves (P := fun x => x.Obeys edit)
        (fun other ho x z changed hx hz => ?_) (obeys_of_setLineIndentation hset)
      exact hx.of_setLineIndentation hz
        (hagree other (List.mem_cons_of_mem edit ho) edit (List.mem_cons_self ..))
    · -- the first edit changes no line count, so the rest are still edits of lines
      have hlen : y.lines.length = d.lines.length := by
        obtain ⟨j, hj, -, hy⟩ := exists_of_setLineIndentation hset
        rw [hy, List.length_set]
      refine ih (fun e he => ?_) (fun e he o ho => ?_) h
      · rw [hlen]
        exact hlines e (List.mem_cons_of_mem first he)
      · exact hagree e (List.mem_cons_of_mem first he) o (List.mem_cons_of_mem first ho)

theorem applyInOrder_eq_self {edits : List IndentEdit} (h : ∀ edit ∈ edits, d.Obeys edit) :
    d.applyInOrder edits = (d, .ok 0) := by
  induction edits with
  | nil => rfl
  | cons edit rest ih =>
    rw [applyInOrder, (h edit (List.mem_cons_self ..)).setLineIndentation_eq]
    simp only [ih fun e he => h e (List.mem_cons_of_mem edit he)]
    rfl

/-- Edits of lines that do not start inside anything leave the tokens in their places, and the
other lines as they were, if no atom goes on with one of them, however the lines above stand. -/
theorem applyInOrder_keeps {edits : List IndentEdit}
    (h : ∀ edit ∈ edits, ∃ i : Nat, edit.line = i ∧ i < d.lines.length ∧ ¬ d.StartsInside i)
    (hjoined : ∀ x, d.Reindents x → ∀ edit ∈ edits, ∀ i : Nat, edit.line = i → ¬ x.Joined i) :
    d.Reindents (d.applyInOrder edits).1 ∧ (d.applyInOrder edits).1.placed = d.placed ∧
      ∀ j : Nat, (∀ edit ∈ edits, edit.line ≠ j) →
        (d.applyInOrder edits).1.lines[j]? = d.lines[j]? := by
  refine applyInOrder_preserves (P := fun x => d.Reindents x ∧ x.placed = d.placed ∧
    ∀ j : Nat, (∀ edit ∈ edits, edit.line ≠ j) → x.lines[j]? = d.lines[j]?) ?_
    ⟨.refl d, rfl, fun _ _ => rfl⟩
  rintro edit hedit x y changed ⟨hx, hplaced, hframe⟩ hset
  obtain ⟨i, hline, hi, hin⟩ := h edit hedit
  rw [hline] at hset
  obtain ⟨k, hk, hik, hlines⟩ := exists_of_setLineIndentation hset
  obtain rfl : i = k := Int.ofNat.inj hik
  -- an edit that came before moved blanks only, so the line still starts inside nothing
  have hinx : ¬ x.StartsInside i := fun hinx =>
    hin ((hx.startsInside_iff (Nat.le_of_lt hi)).mp hinx)
  have hxy := Reindents.of_setLineIndentation hk hinx hset
  have hiny : ¬ y.StartsInside i := fun hiny =>
    hinx ((hxy.startsInside_iff (Nat.le_of_lt hk)).mp hiny)
  refine ⟨hx.trans hxy, ?_, fun j hj => ?_⟩
  · rw [placed_eq_of_set hk hlines (Text.body_indented _ _) hinx hiny
      (hjoined x hx edit hedit i hline) (hjoined y (hx.trans hxy) edit hedit i hline), hplaced]
  · have hne : i ≠ j := by
      rintro rfl
      exact hj edit hedit hline
    rw [hlines, List.getElem?_set_ne hne, hframe j hj]

/-! ### The edits for one line -/

theorem Reindents.isBlank_iff (h : d.Reindents d') {k : Nat} (hk : k < d.lines.length) :
    d'.IsBlank k ↔ d.IsBlank k := by
  have hk' := h.lt_length hk
  rw [IsBlank, IsBlank, List.getElem?_eq_getElem hk, List.getElem?_eq_getElem hk',
    Option.getD_some, Option.getD_some, h.body_eq hk hk']

theorem ownColumn_of_closerColumnAt {table : IndentTable} {k : Nat} {column : Int}
    (hbare : isBareCloserLine (d.lineOf k)) (h : d.closerColumnAt table.maxSteps k = some column) :
    d.ownColumn table k = column := by
  rw [ownColumn, alignment, if_pos (isCloserLine_of_isBareCloserLine hbare), h]

/-- The edits for a line agree with those for the lines above it. -/
theorem column_eq_of_mem_editsFor {table : IndentTable} {j k : Nat} (hjk : j ≤ k)
    {edit other : IndentEdit} (h : edit ∈ d.editsFor table k) (h' : other ∈ d.editsFor table j)
    (hline : edit.line = other.line) : edit.column = other.column := by
  -- the line itself or one that it aligns, for each of the two edits
  obtain ⟨-, rfl | ⟨i, hi⟩⟩ := d.exists_line_of_mem_editsFor h
  · obtain ⟨-, rfl | ⟨i', hi'⟩⟩ := d.exists_line_of_mem_editsFor h'
    · obtain rfl : k = j := Int.ofNat.inj hline
      rfl
    · have hlt := hi'.lt
      have := hline.trans hi'.line_eq
      dsimp only at this
      omega
  · have hbare := hi.bare i (Nat.le_refl i) hi.lt
    obtain ⟨-, rfl | ⟨i', hi'⟩⟩ := d.exists_line_of_mem_editsFor h'
    · obtain rfl : i = j := Int.ofNat.inj (hi.line_eq.symm.trans hline)
      exact (ownColumn_of_closerColumnAt hbare hi.column_eq).symm
    · obtain rfl : i = i' := Int.ofNat.inj (hi.line_eq.symm.trans (hline.trans hi'.line_eq))
      exact Option.some.inj (hi.column_eq.symm.trans hi'.column_eq)

/-- Once the edits for a line are made, the document obeys them. -/
theorem obeys_applyIndentEdits (table : IndentTable) {k : Nat} (hk : k < d.lines.length)
    {edit : IndentEdit} (h : edit ∈ d.editsFor table k) :
    (d.applyIndentEdits (d.editsFor table k)).1.Obeys edit := by
  refine obeys_applyInOrder (fun e he => ?_) (fun e he o ho => ?_) ?_
  · obtain ⟨i, hi, hlt, -⟩ := d.not_startsInside_of_mem_editsFor hk (mem_bottomUp.mp he)
    exact ⟨i, hi, hlt⟩
  · exact column_eq_of_mem_editsFor (Nat.le_refl k) (mem_bottomUp.mp he) (mem_bottomUp.mp ho)
  · exact mem_bottomUp.mpr h

/-- What indenting a line keeps, if no atom goes on with a line that gets an edit. -/
theorem applyIndentEdits_keeps (table : IndentTable) {k : Nat} (hk : k < d.lines.length)
    (hjoined : ∀ x, d.Reindents x → ∀ edit ∈ d.editsFor table k, ∀ i : Nat, edit.line = i →
      ¬ x.Joined i) :
    d.Reindents (d.applyIndentEdits (d.editsFor table k)).1 ∧
      (d.applyIndentEdits (d.editsFor table k)).1.placed = d.placed ∧
      ∀ j : Nat, (∀ edit ∈ d.editsFor table k, edit.line ≠ j) →
        (d.applyIndentEdits (d.editsFor table k)).1.lines[j]? = d.lines[j]? := by
  obtain ⟨hreindents, hplaced, hframe⟩ := applyInOrder_keeps
    (fun edit hedit => d.not_startsInside_of_mem_editsFor hk (mem_bottomUp.mp hedit))
    (fun x hx edit hedit => hjoined x hx edit (mem_bottomUp.mp hedit))
  refine ⟨hreindents, hplaced, fun j hj => hframe j fun edit hedit => ?_⟩
  exact hj edit (mem_bottomUp.mp hedit)

/-- Indenting a line keeps the lines above that hold opening delimiters: those that are re-aligned
hold closing ones only. -/
theorem keepsAbove_applyIndentEdits (table : IndentTable) {k : Nat} (hk : k < d.lines.length)
    (hjoined : ∀ x, d.Reindents x → ∀ edit ∈ d.editsFor table k, ∀ i : Nat, edit.line = i →
      ¬ x.Joined i) :
    d.KeepsAbove (d.applyIndentEdits (d.editsFor table k)).1 k := by
  obtain ⟨hreindents, hplaced, hframe⟩ := applyIndentEdits_keeps table hk hjoined
  refine ⟨hreindents, hplaced, fun j hj l hl hparen => ?_⟩
  rw [← hl]
  apply hframe j
  intro edit hedit hline
  obtain ⟨-, rfl | ⟨i, hi⟩⟩ := d.exists_line_of_mem_editsFor hedit
  · obtain rfl : k = j := Int.ofNat.inj hline
    exact Nat.lt_irrefl k hj
  · -- a bare closer line, whose closing delimiters are no opening ones
    obtain rfl : i = j := Int.ofNat.inj (hi.line_eq.symm.trans hline)
    have hnot := not_mem_of_isBareCloserLine (hi.bare i (Nat.le_refl i) hi.lt)
    rw [lineOf, hl, Option.getD_some] at hnot
    obtain ⟨r, hr, hreturn⟩ := exists_dropFinalReturn_append l
    rw [hr] at hparen
    rcases List.mem_append.mp hparen with hmem | hmem
    · exact hnot hmem
    · have := hreturn _ hmem
      cases this

/-- **Indenting a line settles it**, and what is settled above stays settled. -/
theorem settled_step (hatoms : d.AtomsInLines) (table : IndentTable) {k : Nat}
    (hk : k < d.lines.length) :
    (d.applyIndentEdits (d.editsFor table k)).1.Settled table k ∧
      ∀ j < k, d.Settled table j → (d.applyIndentEdits (d.editsFor table k)).1.Settled table j := by
  have hkeeps := keepsAbove_applyIndentEdits table hk fun x hx _ _ i _ =>
    (hatoms.of_reindents hx).not_joined i
  constructor
  · intro edit hedit
    -- the edits for the line are still the ones that were made
    rw [hkeeps.editsFor_eq hatoms table hk] at hedit
    exact obeys_applyIndentEdits table hk hedit
  · intro j hj hsettled edit hedit
    -- and those for a line above are still the ones that it obeyed
    rw [(hkeeps.mono (Nat.le_of_lt hj)).editsFor_eq hatoms table (Nat.lt_trans hj hk)] at hedit
    refine applyInOrder_preserves (P := fun x => x.Obeys edit) (fun e he x y changed hx hset => ?_)
      (hsettled edit hedit)
    exact hx.of_setLineIndentation hset
      (column_eq_of_mem_editsFor (Nat.le_of_lt hj) (mem_bottomUp.mp he) hedit)

/-! ### The lines of a region -/

theorem isBlank_iff {k : Nat} (hk : k < d.lines.length) :
    (d.lines[k].blanks.length == (dropFinalReturn d.lines[k]).length) = true ↔ d.IsBlank k := by
  have hline := d.lineOf_eq hk
  rw [lineOf, List.getElem?_eq_getElem hk, Option.getD_some] at hline
  rw [IsBlank, List.getElem?_eq_getElem hk, Option.getD_some, hline, List.length_append, beq_iff_eq,
    ← List.length_eq_zero_iff]
  omega

/-- One line of a region. -/
theorem indentRegionLine_settled (hatoms : d.AtomsInLines) (table : IndentTable) {k : Nat}
    (hk : k < d.lines.length) :
    ∃ x m, d.indentRegionLine k table = (x, .ok m) ∧ d.Reindents x ∧
      (¬ d.IsBlank k → x.Settled table k) ∧
        ∀ j < k, d.Settled table j → x.Settled table j := by
  rw [d.indentRegionLine_eq table hk]
  by_cases hblank : d.IsBlank k
  · rw [if_pos ((isBlank_iff hk).mpr hblank)]
    exact ⟨d, 0, rfl, .refl d, fun h => absurd hblank h, fun _ _ h => h⟩
  · rw [if_neg fun h => hblank ((isBlank_iff hk).mp h)]
    obtain ⟨x, m, happly, hreindents⟩ := applyIndentEdits_reindents table hk
    obtain ⟨hown, habove⟩ := settled_step hatoms table hk
    rw [happly] at hown habove
    exact ⟨x, m, happly, hreindents, fun _ => hown, habove⟩

/-- **A run settles its lines**, and what is settled above them stays settled. -/
theorem indentLines_settled (hatoms : d.AtomsInLines) (table : IndentTable) {start n : Nat}
    (hn : start + n ≤ d.lines.length) :
    ∃ x m, d.indentLines table ((List.range' start n).map fun k : Nat => (k : Int)) = (x, .ok m) ∧
      d.Reindents x ∧ (∀ j < start, d.Settled table j → x.Settled table j) ∧
        ∀ j, start ≤ j → j < start + n → ¬ d.IsBlank j → x.Settled table j := by
  induction n generalizing d start with
  | zero => exact ⟨d, 0, rfl, .refl d, fun _ _ h => h, fun j _ _ => by omega⟩
  | succ n ih =>
    -- the invariant: the document reindents the first, and the lines of the run so far are settled
    obtain ⟨x, m, hline, hx, hown, habove⟩ :=
      indentRegionLine_settled hatoms table (k := start) (by omega)
    have hlen : start + 1 + n ≤ x.lines.length := by
      rw [hx.length_eq]
      omega
    obtain ⟨y, m', hrest, hy, hkept, hnew⟩ := ih (hatoms.of_reindents hx) hlen
    refine ⟨y, m + m', ?_, hx.trans hy, fun j hj hsettled => ?_, fun j hlo hhi hblank => ?_⟩
    · rw [List.range'_succ, List.map_cons, indentLines, hline]
      simp only [hrest]
      rfl
    · exact hkept j (by omega) (habove j hj hsettled)
    · rcases Nat.lt_or_eq_of_le hlo with hlt | rfl
      · refine hnew j hlt (by omega) fun hblank' => hblank ?_
        exact (hx.isBlank_iff (by omega)).mp hblank'
      · exact hkept start (Nat.lt_succ_self start) (hown hblank)

/-- Lines that are blank or settled are left alone. -/
theorem indentLines_eq_self (table : IndentTable) {lines : List Int}
    (h : ∀ line ∈ lines, ∃ k : Nat, line = k ∧ k < d.lines.length ∧
      (d.IsBlank k ∨ d.Settled table k)) :
    d.indentLines table lines = (d, .ok 0) := by
  induction lines with
  | nil => rfl
  | cons line rest ih =>
    obtain ⟨k, rfl, hk, hdone⟩ := h line (List.mem_cons_self ..)
    have hline : d.indentRegionLine k table = (d, .ok 0) := by
      rw [d.indentRegionLine_eq table hk]
      by_cases hblank : d.IsBlank k
      · rw [if_pos ((isBlank_iff hk).mpr hblank)]
      · rw [if_neg fun h => hblank ((isBlank_iff hk).mp h)]
        have hsettled := hdone.resolve_left hblank
        exact applyInOrder_eq_self fun edit hedit => hsettled edit (mem_bottomUp.mp hedit)
    rw [indentLines, hline]
    simp only [ih fun l hl => h l (List.mem_cons_of_mem _ hl)]
    rfl

theorem linesFrom_eq_range' (d : Document) (first last : Int) :
    d.linesFrom first last = (List.range' (max 0 first).toNat
      (min last (d.lines.length - 1) + 1 - max 0 first).toNat).map fun k : Nat => (k : Int) := by
  rw [linesFrom, lineCount_eq, List.range'_eq_map_range, List.map_map]
  apply List.map_congr_left
  intro i _
  simp only [Function.comp_apply]
  omega

/-- The lines of a region that are lines of the document. -/
theorem linesFrom_eq (d : Document) (first last : Int) :
    ∃ start n, d.linesFrom first last = (List.range' start n).map (fun k : Nat => (k : Int)) ∧
      (n = 0 ∨ start + n ≤ d.lines.length) ∧
        ∀ k : Nat, k < d.lines.length → first ≤ k → (k : Int) ≤ last →
          start ≤ k ∧ k < start + n := by
  refine ⟨_, _, d.linesFrom_eq_range' first last, ?_, ?_⟩
  · omega
  · omega

/-- **Indenting a region twice** is indenting it once, whatever the rules and the region, if no atom
holds a line feed: after the first run the document obeys all edits that are computed for a line of
the region that is not blank, and the second run changes nothing. -/
theorem indentRegion_idempotent (d : Document) (table : IndentTable) (first last : Int)
    (hatoms : ∀ t ∈ tokenize d.text, t.kind = .atom → lineFeed ∉ t.text) :
    (∃ changed, (d.indentRegion first last table).2 = .ok changed) ∧
    (d.indentRegion first last table).1.indentRegion first last table =
      ((d.indentRegion first last table).1, .ok 0) ∧
    ∀ (offset : Int) (indentation : LineIndentation),
      first ≤ (d.indentRegion first last table).1.lineAt offset →
      (d.indentRegion first last table).1.lineAt offset ≤ last →
      (d.indentRegion first last table).1.lineIndentation
        ((d.indentRegion first last table).1.lineAt offset) = .ok indentation →
      indentation.blank = false →
      ∃ edits, (d.indentRegion first last table).1.computeIndent offset table = .ok edits ∧
        ∀ edit ∈ edits,
          (d.indentRegion first last table).1.setLineIndentation edit.line edit.column =
            .ok ((d.indentRegion first last table).1, false) := by
  obtain ⟨start, n, hregion, hn, hmem⟩ := d.linesFrom_eq first last
  obtain ⟨x, m, hrun, hx, hsettled⟩ : ∃ x m, d.indentRegion first last table = (x, .ok m) ∧
      d.Reindents x ∧ ∀ j, start ≤ j → j < start + n → ¬ d.IsBlank j → x.Settled table j := by
    rw [indentRegion, hregion]
    rcases hn with rfl | hn
    · exact ⟨d, 0, rfl, .refl d, fun j _ _ => by omega⟩
    · obtain ⟨x, m, hrun, hx, -, hnew⟩ := indentLines_settled hatoms table hn
      exact ⟨x, m, hrun, hx, hnew⟩
  rw [hrun]
  refine ⟨⟨m, rfl⟩, ?_, fun offset indentation hfirst hlast hindentation hblank => ?_⟩
  · have hlines : x.linesFrom first last = d.linesFrom first last := by
      rw [linesFrom, linesFrom, lineCount_eq, lineCount_eq, hx.length_eq]
    rw [indentRegion, hlines, hregion]
    apply indentLines_eq_self table
    intro line hline
    obtain ⟨k, hk, rfl⟩ := List.mem_map.mp hline
    rw [List.mem_range'_1] at hk
    have hlt : k < d.lines.length := by omega
    refine ⟨k, rfl, hx.lt_length hlt, ?_⟩
    by_cases hblank : d.IsBlank k
    · exact .inl ((hx.isBlank_iff hlt).mpr hblank)
    · exact .inr (hsettled k hk.1 hk.2 hblank)
  · obtain ⟨k, hk, hline, -, -⟩ := x.exists_lineAt offset
    have hlt : k < d.lines.length := by
      rw [← hx.length_eq]
      exact hk
    rw [hline] at hfirst hlast hindentation
    rw [lineIndentation_of_lt x hk] at hindentation
    cases hindentation
    obtain ⟨hlo, hhi⟩ := hmem k hlt hfirst hlast
    refine ⟨x.editsFor table k, x.computeIndent_eq table hk hline, fun edit hedit => ?_⟩
    refine (hsettled k hlo hhi (fun hd => ?_) edit hedit).setLineIndentation_eq
    have := (isBlank_iff hk).mpr ((hx.isBlank_iff hlt).mpr hd)
    exact Bool.false_ne_true (hblank.symm.trans this)

/-- A list in a list: the first run sets in the inner list, puts its closing delimiter under its
opening one and sets in what follows; the second run finds nothing to do. -/
theorem indentRegion_idempotent_nested :
    let d := ofText [leftParen, 0x61, lineFeed, leftParen, 0x62, lineFeed, rightParen, lineFeed,
      0x63, rightParen]
    let table : IndentTable := ⟨.empty, [], [], [], [], [], [atSign], 6, 100, 100⟩
    (∀ t ∈ tokenize d.text, t.kind = .atom → lineFeed ∉ t.text) ∧
      (d.indentRegion (-1) 9 table).1.text =
        [leftParen, 0x61, lineFeed, space, space, leftParen, 0x62, lineFeed, space, space,
          rightParen, lineFeed, space, space, 0x63, rightParen] ∧
      (d.indentRegion (-1) 9 table).1.indentRegion (-1) 9 table =
        ((d.indentRegion (-1) 9 table).1, .ok 0) := by
  intro d table
  have hatoms : ∀ t ∈ tokenize d.text, t.kind = .atom → lineFeed ∉ t.text := by decide +kernel
  exact ⟨hatoms, by decide +kernel, (indentRegion_idempotent d table (-1) 9 hatoms).2.1⟩

end Document

end SexpEditing
