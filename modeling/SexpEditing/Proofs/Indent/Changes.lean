import Mathlib.Data.Finset.Card
import SexpEditing.Proofs.Indent.Aligned

/-!
# Lines that edits change

An edit replaces the blanks of one line. However often a line is edited, only the last edit counts
for its text; for the number of changes it matters that no line is changed twice. That is so if each
edit is for a line that is as it was at first, or that is indented as the edit says already.

## Main definitions

* `Document.changedLines`: the lines in which two documents differ
* `Document.BareRun`: lines directly above another that are bare closer lines

## Main results

* `Document.getElem?_applyInOrder`: what edits make of each line
* `Document.card_changedLines_applyInOrder`: when as many lines differ as changes were counted
* `Document.getElem?_editsFor`: which lines the edits for a line are for, and where they put them
* `Document.exists_indentLine_eq`: what indenting a line does, and what it answers
-/

namespace SexpEditing

open CodeUnit

theorem Text.indented_indented (column column' : Int) (l : Text) :
    (l.indented column').indented column = l.indented column := by
  show List.replicate column.toNat space ++ (l.indented column').body = _
  rw [body_indented]
  rfl

/-- No line is put at a negative column. -/
theorem IndentInput.column_nonneg (input : IndentInput) : 0 ≤ input.column := by
  unfold column IndentRule.select
  split
  · exact Int.le_max_left ..
  · exact Int.le_refl 0

namespace Document

/-- The lines in which two documents differ. -/
def changedLines (d d' : Document) : Finset Nat :=
  (Finset.range d.lines.length).filter fun k => d'.lines[k]? ≠ d.lines[k]?

variable {d d' x y : Document}

theorem mem_changedLines {k : Nat} :
    k ∈ d.changedLines d' ↔ k < d.lines.length ∧ d'.lines[k]? ≠ d.lines[k]? := by
  rw [changedLines, Finset.mem_filter, Finset.mem_range]

theorem changedLines_self (d : Document) : d.changedLines d = ∅ := by
  apply Finset.filter_false_of_mem
  intro k _ hne
  exact hne rfl

/-! ### What edits make of the lines -/

/-- **What edits make of each line**: it stays as it was, or gets the blanks that one of the edits
for it says. -/
theorem getElem?_applyInOrder (x : Document) (edits : List IndentEdit) (j : Nat) :
    (x.applyInOrder edits).1.lines[j]? = x.lines[j]? ∨
      ∃ edit ∈ edits, edit.line = j ∧ ∃ l, x.lines[j]? = some l ∧
        (x.applyInOrder edits).1.lines[j]? = some (l.indented edit.column) := by
  -- what is claimed of the lines in the end holds after each edit
  refine applyInOrder_preserves (P := fun z => z.lines[j]? = x.lines[j]? ∨
    ∃ edit ∈ edits, edit.line = j ∧ ∃ l, x.lines[j]? = some l ∧
      z.lines[j]? = some (l.indented edit.column)) ?_ (.inl rfl)
  intro edit hedit z z' changed hz hset
  obtain ⟨k, hk, hline, hlines⟩ := exists_of_setLineIndentation hset
  rw [hlines]
  by_cases hkj : k = j
  · subst hkj
    rw [List.getElem?_set_self hk]
    right
    rcases hz with hsame | ⟨other, -, -, l, hl, hother⟩
    · rw [List.getElem?_eq_getElem hk] at hsame
      exact ⟨edit, hedit, hline, _, hsame.symm, rfl⟩
    · -- an edit of a line that was edited before leaves nothing of the other one
      rw [List.getElem?_eq_getElem hk, Option.some.injEq] at hother
      refine ⟨edit, hedit, hline, l, hl, ?_⟩
      rw [hother, Text.indented_indented]
  · rw [List.getElem?_set_ne hkj]
    exact hz

/-! ### Counting -/

/-- An edit is counted if one line more differs: the line was as at first, or indented so
already. -/
theorem card_changedLines_of_setLineIndentation {edit : IndentEdit} {changed : Bool}
    (hset : x.setLineIndentation edit.line edit.column = .ok (y, changed))
    (hlen : x.lines.length = d.lines.length)
    (hfresh : x.Obeys edit ∨ ∀ k : Nat, edit.line = k → x.lines[k]? = d.lines[k]?) :
    (d.changedLines y).card = (d.changedLines x).card + changed.toNat := by
  rcases hfresh with hobeys | hsame
  · rw [hobeys.setLineIndentation_eq] at hset
    cases hset
    rfl
  · obtain ⟨k, hk, hline, hlines⟩ := exists_of_setLineIndentation hset
    have hsame := hsame k hline
    rw [hline, setLineIndentation_of_lt x hk] at hset
    split at hset
    · cases hset
      rfl
    · next hne =>
      obtain ⟨-, rfl⟩ := Prod.mk.inj (Except.ok.inj hset)
      -- the line did not differ before, and does now
      have hinsert : d.changedLines y = insert k (d.changedLines x) := by
        ext j
        rw [Finset.mem_insert, mem_changedLines, mem_changedLines, hlines]
        by_cases hjk : j = k
        · subst hjk
          rw [List.getElem?_set_self hk, ← hsame, List.getElem?_eq_getElem hk]
          refine iff_of_true ⟨by omega, fun heq => hne ?_⟩ (.inl rfl)
          exact Option.some.inj heq
        · rw [List.getElem?_set_ne (Ne.symm hjk), or_iff_right hjk]
      have hnot : k ∉ d.changedLines x := by
        intro hmem
        exact (mem_changedLines.mp hmem).2 hsame
      rw [hinsert, Finset.card_insert_of_notMem hnot]
      rfl

/-- **As many lines differ as changes are counted**, if the edits agree about each line, and each of
these is as it was at first, or indented as its edit says already. -/
theorem card_changedLines_applyInOrder {edits : List IndentEdit}
    (hlen : x.lines.length = d.lines.length)
    (hlines : ∀ edit ∈ edits, ∃ k : Nat, edit.line = k ∧ k < x.lines.length)
    (hagree : ∀ edit ∈ edits, ∀ other ∈ edits, edit.line = other.line → edit.column = other.column)
    (hfresh : ∀ edit ∈ edits,
      x.Obeys edit ∨ ∀ k : Nat, edit.line = k → x.lines[k]? = d.lines[k]?) :
    ∃ n, (x.applyInOrder edits).2 = .ok n ∧
      (d.changedLines (x.applyInOrder edits).1).card = (d.changedLines x).card + n := by
  -- the document so far varies: an edit may be fresh because the one before it indented its line so
  induction edits generalizing x with
  | nil => exact ⟨0, rfl, rfl⟩
  | cons edit rest ih =>
    obtain ⟨k, hline, hk⟩ := hlines edit List.mem_cons_self
    obtain ⟨y, changed, hset⟩ : ∃ y changed,
        x.setLineIndentation edit.line edit.column = .ok (y, changed) := by
      rw [hline, setLineIndentation_of_lt x hk]
      exact ⟨_, _, rfl⟩
    have hfirst :=
      card_changedLines_of_setLineIndentation hset hlen (hfresh edit List.mem_cons_self)
    obtain ⟨k', hk', hline', hset'⟩ := exists_of_setLineIndentation hset
    have hleny : y.lines.length = x.lines.length := by rw [hset', List.length_set]
    have hrest : ∀ other ∈ rest,
        y.Obeys other ∨ ∀ j : Nat, other.line = j → y.lines[j]? = d.lines[j]? := by
      intro other hother
      have hmem := List.mem_cons_of_mem edit hother
      have hcolumn := hagree edit List.mem_cons_self other hmem
      rcases hfresh other hmem with hobeys | hsame
      · exact .inl (hobeys.of_setLineIndentation hset hcolumn)
      · by_cases hsameLine : edit.line = other.line
        · -- both edits are for one line, which now is indented as both say
          have heq : edit = other := by
            cases edit
            cases other
            exact IndentEdit.mk.injEq .. ▸ ⟨hsameLine, hcolumn hsameLine⟩
          rw [← heq]
          exact .inl (obeys_of_setLineIndentation hset)
        · right
          intro j hj
          have hne : k' ≠ j := by
            rintro rfl
            exact hsameLine (hline'.trans hj.symm)
          rw [hset', List.getElem?_set_ne hne]
          exact hsame j hj
    obtain ⟨n, hn, hcard⟩ := ih (hleny.trans hlen)
      (fun other hother => by
        rw [hleny]
        exact hlines other (List.mem_cons_of_mem edit hother))
      (fun e he o ho => hagree e (List.mem_cons_of_mem edit he) o (List.mem_cons_of_mem edit ho))
      hrest
    refine ⟨n + changed.toNat, ?_, ?_⟩
    · rw [applyInOrder, hset]
      simp only [hn]
      rfl
    · rw [applyInOrder, hset]
      simp only
      rw [hcard, hfirst]
      omega

/-! ### The edits for a line -/

theorem closerColumnAt_nonneg {maxSteps k : Nat} {column : Int}
    (h : d.closerColumnAt maxSteps k = some column) : 0 ≤ column := by
  unfold closerColumnAt at h
  obtain ⟨split, -, h⟩ := Option.bind_eq_some_iff.mp h
  obtain ⟨sexp, -, h⟩ := Option.bind_eq_some_iff.mp h
  obtain ⟨opener, -, h⟩ := Option.bind_eq_some_iff.mp h
  cases h
  exact d.columnAt_nonneg opener.start

/-- The edits for the lines above a closer line go up line by line. -/
theorem getElem?_alignAbove {maxSteps steps k i : Nat} {edit : IndentEdit}
    (h : (d.alignAbove maxSteps steps k)[i]? = some edit) :
    i < k ∧ edit.line = (k - 1 - i : Nat) ∧ 0 ≤ edit.column := by
  induction steps generalizing k i with
  | zero => cases h
  | succ steps ih =>
    cases k with
    | zero => cases h
    | succ k =>
      unfold alignAbove at h
      split at h
      · split at h
        · next column hcolumn =>
          cases i with
          | zero =>
            cases h
            exact ⟨Nat.succ_pos k, rfl, closerColumnAt_nonneg hcolumn⟩
          | succ i =>
            -- the rest of the edits is for the lines above this one
            obtain ⟨hi, hline, hpos⟩ := ih (List.getElem?_cons_succ ▸ h)
            refine ⟨Nat.succ_lt_succ hi, ?_, hpos⟩
            rw [hline]
            congr 1
            omega
        · cases h
      · cases h

/-- The first of the edits for a line is for that line, and the others are for lines above. -/
theorem exists_editsFor_eq_cons (table : IndentTable) {k : Nat} (hin : ¬ d.StartsInside k) :
    ∃ (column : Int) (steps : Nat), 0 ≤ column ∧
      d.editsFor table k = ⟨k, column⟩ :: d.alignAbove table.maxSteps steps k := by
  rw [editsFor, if_neg hin]
  cases halign : d.alignment table.maxSteps table.maxDedentSteps k with
  | nil =>
    -- no line of closing delimiters: the rules decide about the line alone
    refine ⟨d.ruleColumn table k, 0, IndentInput.column_nonneg _, ?_⟩
    rw [alignAbove]
  | cons edit rest =>
    rw [alignment] at halign
    split at halign
    · split at halign
      · next column hcolumn =>
        exact ⟨column, table.maxDedentSteps, closerColumnAt_nonneg hcolumn, halign.symm⟩
      · cases halign
    · cases halign

/-- **The edits for a line** go up line by line from it, and none puts a line at a negative
column. -/
theorem getElem?_editsFor {table : IndentTable} {k i : Nat} {edit : IndentEdit}
    (h : (d.editsFor table k)[i]? = some edit) :
    i ≤ k ∧ edit.line = (k - i : Nat) ∧ 0 ≤ edit.column := by
  by_cases hin : d.StartsInside k
  · rw [editsFor, if_pos hin] at h
    cases h
  · obtain ⟨column, steps, hpos, heq⟩ := exists_editsFor_eq_cons table hin
    rw [heq] at h
    cases i with
    | zero =>
      cases h
      exact ⟨Nat.zero_le k, rfl, hpos⟩
    | succ i =>
      obtain ⟨hi, hline, hcolumn⟩ := getElem?_alignAbove (List.getElem?_cons_succ ▸ h)
      refine ⟨hi, ?_, hcolumn⟩
      rw [hline]
      congr 1
      omega

/-! ### Indenting one line -/

/-- The lines from one up to another, that one not included, are bare closer lines. -/
def BareRun (d : Document) (i k : Nat) : Prop :=
  ∀ m, i ≤ m → m < k → isBareCloserLine (d.lineOf m) = true

/-- An edit for a line is for that line, or for the first of a run of bare closer lines above it. -/
theorem exists_bareRun_of_mem_editsFor {table : IndentTable} {k : Nat} {edit : IndentEdit}
    (h : edit ∈ d.editsFor table k) : ∃ i : Nat, edit.line = i ∧ i ≤ k ∧ d.BareRun i k := by
  obtain ⟨-, rfl | ⟨i, hi⟩⟩ := d.exists_line_of_mem_editsFor h
  · refine ⟨k, rfl, Nat.le_refl k, fun m hkm hmk => ?_⟩
    exact absurd hmk (Nat.not_lt.mpr hkm)
  · exact ⟨i, hi.line_eq, Nat.le_of_lt hi.lt, hi.bare⟩

/-- **What indenting a line touches**: a line stays as it was, or gets the blanks that one of the
edits for it says. -/
theorem getElem?_applyIndentEdits (d : Document) (table : IndentTable) (k j : Nat) :
    (d.applyIndentEdits (d.editsFor table k)).1.lines[j]? = d.lines[j]? ∨
      ∃ edit ∈ d.editsFor table k, edit.line = j ∧ ∃ l, d.lines[j]? = some l ∧
        (d.applyIndentEdits (d.editsFor table k)).1.lines[j]? = some (l.indented edit.column) := by
  rcases d.getElem?_applyInOrder (bottomUp (d.editsFor table k)) j with h | ⟨edit, hedit, h⟩
  · exact .inl h
  · exact .inr ⟨edit, mem_bottomUp.mp hedit, h⟩

/-- Only the line itself and the bare closer lines directly above it can differ afterwards. -/
theorem bareRun_of_applyIndentEdits_ne {table : IndentTable} {k j : Nat}
    (hne : (d.applyIndentEdits (d.editsFor table k)).1.lines[j]? ≠ d.lines[j]?) :
    j ≤ k ∧ d.BareRun j k := by
  obtain ⟨edit, hedit, hline, -⟩ := (d.getElem?_applyIndentEdits table k j).resolve_left hne
  obtain ⟨i, hi, hik, hrun⟩ := exists_bareRun_of_mem_editsFor hedit
  obtain rfl : i = j := Int.ofNat.inj (hi.symm.trans hline)
  exact ⟨hik, hrun⟩

/-- **What indenting a line does, and what it answers**: the new width of the line. Another line
that differs afterwards is one of the bare closer lines directly above. -/
theorem exists_indentLine_eq (table : IndentTable) {offset : Int} {k : Nat}
    (hk : k < d.lines.length) (hoffset : d.lineAt offset = k) :
    ∃ d' l, d.indentLine offset table = (d', .ok l.blanks.length) ∧ d'.lines[k]? = some l ∧
      d.Reindents d' ∧ ∀ j, d'.lines[j]? ≠ d.lines[j]? → j ≤ k ∧ d.BareRun j k := by
  obtain ⟨d', n, happly, hreindents⟩ := applyIndentEdits_reindents table hk
  have hcompute := d.computeIndent_eq table hk hoffset
  cases hedits : d.editsFor table k with
  | nil =>
    -- nothing is done, and the answer is the width as it is
    refine ⟨d, d.lines[k], ?_, List.getElem?_eq_getElem hk, .refl d, fun j hne => ?_⟩
    · rw [indentLine, hcompute, hedits]
      simp only
      rw [hoffset, lineIndentation_of_lt d hk]
      rfl
    · exact absurd rfl hne
  | cons edit rest =>
    have hfirst : (d.editsFor table k)[0]? = some edit := by
      rw [hedits]
      rfl
    obtain ⟨-, hline, hpos⟩ := getElem?_editsFor hfirst
    -- the first edit is for the line itself, and the answer is its column
    have hobeys := obeys_applyIndentEdits table hk (List.mem_of_getElem? hfirst)
    rw [happly] at hobeys
    obtain ⟨i, hi, hi', hblanks⟩ := hobeys
    obtain rfl : i = k := Int.ofNat.inj (hi'.symm.trans hline)
    refine ⟨d', d'.lines[i], ?_, List.getElem?_eq_getElem hi, hreindents, fun j hne => ?_⟩
    · rw [hedits] at happly
      rw [indentLine, hcompute, hedits]
      simp only [happly, hblanks, List.length_replicate]
      rw [Int.toNat_of_nonneg hpos]
      rfl
    · have hne' : (d.applyIndentEdits (d.editsFor table i)).1.lines[j]? ≠ d.lines[j]? := by
        rw [happly]
        exact hne
      exact bareRun_of_applyIndentEdits_ne hne'

end Document

end SexpEditing
