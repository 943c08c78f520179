import SexpEditing.Proofs.Indent.Reindent
import SexpEditing.Proofs.Sexp.Span

/-!
# The edits that indent a line

Computing an indentation never fails. What it answers depends on whether the line starts inside
something, whether it is a line of closing delimiters, and on the lists around it.

## Main definitions

* `Document.closerColumnAt`: the column under which a line of closing delimiters stands
* `Document.alignAbove`, `Document.alignment`: the edits for lines of closing delimiters
* `Document.ruleColumn`: the column that the rules give
* `Document.editsFor`: the edits that indent a line, and `Document.ownColumn`: the column of the
  first of them

## Main results

* `Document.computeIndent_eq`: the edits that are computed
* `Document.not_startsInside_of_mem_editsFor`: none is for a line inside a string or a comment
-/

namespace SexpEditing

open CodeUnit

instance : DecidablePred Unfinished := fun t =>
  inferInstanceAs (Decidable (nextLexeme t = none ∧ t ≠ []))

namespace Document

instance (d : Document) : DecidablePred d.StartsInside := fun line =>
  inferInstanceAs (Decidable (Unfinished (pending (Text.above d.lines line))))

/-- The text of a line; there is none behind the last line. -/
def lineOf (d : Document) (line : Nat) : Text := dropFinalReturn (d.lines[line]?.getD [])

/-- The offset of the first unit of a line that is no blank. -/
def bodyStart (d : Document) (line : Nat) : Int :=
  (Text.above d.lines line).length + (d.lines[line]?.getD []).blanks.length

/-- The column of the opening delimiter under which a line of closing delimiters stands. -/
def closerColumnAt (d : Document) (maxSteps line : Nat) : Option Int := do
  let (width, _) ← splitClosers (d.lineOf line)
  let sexp ← (Navigator.ofDocument d maxSteps).backwardSexp
    ((Text.above d.lines line).length + width)
  let opener ← sexp.opener
  return d.columnAt opener.start

/-- The edits for at most `steps` bare closer lines directly above a line. -/
def alignAbove (d : Document) (maxSteps : Nat) : (steps : Nat) → (line : Nat) → List IndentEdit
  | 0, _ => []
  | _, 0 => []
  | steps + 1, line + 1 =>
    if isBareCloserLine (d.lineOf line) then
      match d.closerColumnAt maxSteps line with
      | some column => ⟨line, column⟩ :: alignAbove d maxSteps steps line
      | none => []
    else []

/-- The edits that align a closer line and the bare closer lines above it. -/
def alignment (d : Document) (maxSteps steps line : Nat) : List IndentEdit :=
  if isCloserLine (d.lineOf line) then
    match d.closerColumnAt maxSteps line with
    | some column => ⟨line, column⟩ :: d.alignAbove maxSteps steps line
    | none => []
  else []

/-- The column that the rules give for a line. -/
def ruleColumn (d : Document) (table : IndentTable) (line : Nat) : Int :=
  let nav := Navigator.ofDocument d table.maxSteps
  let contexts := nav.contexts (d.bodyStart line)
  let firstToken := (nav.index.scan (d.bodyStart line) .forward false).bind fun t =>
    if t.start = d.bodyStart line then some t.toLexeme else none
  (IndentInput.mk contexts.current contexts.parent ⟨line, firstToken⟩ table).column

/-- The column to which a line itself is indented. -/
def ownColumn (d : Document) (table : IndentTable) (line : Nat) : Int :=
  match d.alignment table.maxSteps table.maxDedentSteps line with
  | [] => d.ruleColumn table line
  | edit :: _ => edit.column

/-- The edits that indent a line. -/
def editsFor (d : Document) (table : IndentTable) (line : Nat) : List IndentEdit :=
  if d.StartsInside line then []
  else
    match d.alignment table.maxSteps table.maxDedentSteps line with
    | [] => [⟨line, d.ruleColumn table line⟩]
    | edits => edits

section

variable (d : Document)

theorem lineText_eq {k : Nat} (hk : k < d.lines.length) : d.lineText k = .ok (d.lineOf k) := by
  rw [lineText_of_lt d hk, lineOf, List.getElem?_eq_getElem hk, Option.getD_some]

theorem closerColumn_eq (maxSteps : Nat) {k : Nat} (hk : k < d.lines.length) :
    (Navigator.ofDocument d maxSteps).closerColumn k = .ok (d.closerColumnAt maxSteps k) := by
  have htext : (Navigator.ofDocument d maxSteps).document.lineText k = .ok (d.lineOf k) :=
    d.lineText_eq hk
  have hstart : (Navigator.ofDocument d maxSteps).document.lineStart k =
      .ok (Text.above d.lines k).length := lineStart_of_lt d hk
  rw [Navigator.closerColumn, htext, hstart, closerColumnAt]
  simp only [bind, Except.bind]
  cases splitClosers (d.lineOf k) with
  | none => rfl
  | some split =>
    simp only [Option.bind_some]
    cases (Navigator.ofDocument d maxSteps).backwardSexp _ with
    | none => rfl
    | some sexp => cases h : sexp.opener <;> simp [h] <;> rfl

theorem dedentAbove_eq (maxSteps steps : Nat) {k : Nat} (hk : k ≤ d.lines.length) :
    (Navigator.ofDocument d maxSteps).dedentAbove steps ((k : Int) - 1) =
      .ok (d.alignAbove maxSteps steps k) := by
  induction steps generalizing k with
  | zero => cases k <;> rfl
  | succ steps ih =>
    cases k with
    | zero => rfl
    | succ k =>
      have htext : (Navigator.ofDocument d maxSteps).document.lineText k = .ok (d.lineOf k) :=
        d.lineText_eq hk
      -- the loop stands one line up, and stops when there is none
      have hline : ((k + 1 : Nat) : Int) - 1 = k := by omega
      rw [Navigator.dedentAbove, hline, if_neg (by omega), htext, closerColumn_eq d maxSteps hk,
        ih (Nat.le_of_lt hk), alignAbove]
      simp only [bind, Except.bind]
      cases isBareCloserLine (d.lineOf k) with
      | false => rfl
      | true => cases d.closerColumnAt maxSteps k <;> rfl

theorem dedentPass_eq (maxSteps steps : Nat) {k : Nat} (hk : k < d.lines.length) :
    (Navigator.ofDocument d maxSteps).dedentPass k steps =
      .ok (d.alignment maxSteps steps k) := by
  have htext : (Navigator.ofDocument d maxSteps).document.lineText k = .ok (d.lineOf k) :=
    d.lineText_eq hk
  rw [Navigator.dedentPass, htext, closerColumn_eq d maxSteps hk,
    dedentAbove_eq d maxSteps steps (Nat.le_of_lt hk), alignment]
  simp only [bind, Except.bind]
  cases isCloserLine (d.lineOf k) with
  | false => rfl
  | true => cases d.closerColumnAt maxSteps k <;> rfl

theorem length_above_add_blanks {k : Nat} (hk : k < d.lines.length) :
    ((Text.above d.lines k).length : Int) + d.lines[k].blanks.length = d.bodyStart k := by
  rw [bodyStart, List.getElem?_eq_getElem hk, Option.getD_some]

/-- The index looks at the first unit of a line that is no blank; what decides is the text above
the line. -/
theorem insideText_bodyStart_iff {k : Nat} (hk : k < d.lines.length) :
    (TokenIndex.ofText d.text).insideText (d.bodyStart k) d.length = true ↔ d.StartsInside k := by
  have := insideText_iff (Text.endsLine_above d.lines k) (Text.all_isSpace_blanks d.lines[k])
    (x := d.lines[k].body ++ Text.below d.lines k)
  rwa [← text_eq_blanks_body d hk, d.length_above_add_blanks hk] at this

/-- **The edits that are computed** for the line of an offset. -/
theorem computeIndent_eq (table : IndentTable) {offset : Int} {k : Nat} (hk : k < d.lines.length)
    (hoffset : d.lineAt offset = k) :
    d.computeIndent offset table = .ok (d.editsFor table k) := by
  have hstart := d.length_above_add_blanks hk
  have hinside : (Navigator.ofDocument d table.maxSteps).index.insideText (d.bodyStart k) d.length =
      true ↔ d.StartsInside k := d.insideText_bodyStart_iff hk
  rw [computeIndent, hoffset, lineIndentation_of_lt d hk, editsFor]
  simp only [bind, Except.bind]
  rw [hstart, dedentPass_eq d _ _ hk]
  by_cases hin : d.StartsInside k
  · rw [if_pos (hinside.mpr hin), if_pos hin]
    rfl
  · rw [if_neg fun h => hin (hinside.mp h), if_neg hin]
    cases d.alignment table.maxSteps table.maxDedentSteps k <;> rfl

/-! ### Lines of closing delimiters -/

/-- A bare closer line holds nothing that matters in a string or a comment. -/
theorem all_isPlain_of_isBareCloserLine {l : Text} (h : isBareCloserLine l) : l.all isPlain := by
  have hparen {t : Text} : (t.takeWhile (· == rightParen)).all isPlain := by
    rw [List.all_eq_true]
    intro c hc
    have := List.all_eq_true.mp (List.all_takeWhile (l := t)) c hc
    rw [beq_iff_eq.mp this]
    rfl
  rw [isBareCloserLine, splitClosers] at h
  rw [← List.takeWhile_append_dropWhile (p := isSpace) (l := l), List.all_append,
    all_isPlain_of_all_isSpace List.all_takeWhile, Bool.true_and]
  split at h
  · cases h
  · rw [Option.any_some] at h
    rw [← List.takeWhile_append_dropWhile (p := (· == rightParen)) (l := l.dropWhile isSpace),
      List.all_append, hparen, Bool.true_and]
    exact all_isPlain_of_all_isSpace h

theorem all_isPlain_of_lineOf {k : Nat} (hk : k < d.lines.length)
    (h : isBareCloserLine (d.lineOf k)) : d.lines[k].all isPlain := by
  have hplain := all_isPlain_of_isBareCloserLine h
  rw [lineOf, List.getElem?_eq_getElem hk, Option.getD_some] at hplain
  unfold dropFinalReturn at hplain
  split at hplain
  · next hlast =>
    obtain ⟨init, hinit⟩ := List.getLast?_eq_some_iff.mp hlast
    rw [hinit, List.dropLast_concat] at hplain
    rw [hinit, List.all_append, hplain]
    rfl
  · exact hplain

/-- What starts inside something before a bare closer line is still inside it after the line. -/
theorem startsInside_succ {k : Nat} (hk : k < d.lines.length) (hin : d.StartsInside k)
    (h : isBareCloserLine (d.lineOf k)) : d.StartsInside (k + 1) := by
  have hplain : (d.lines[k] ++ [lineFeed]).all isPlain := by
    rw [List.all_append, all_isPlain_of_lineOf d hk h]
    rfl
  -- nothing on the line ends a string or a comment, the line feed included
  have hnext := Unfinished.append hin (Text.endsLine_above d.lines k).pending hplain
  rw [StartsInside, Text.above_succ hk, List.append_assoc, pending_append, pending_of_none hnext.1]
  exact hnext

/-- A bare closer line starts inside something only if the lines below it do, up to the first that
is no bare closer line. -/
theorem not_startsInside_of_bare {i k : Nat} (hik : i ≤ k) (hk : k ≤ d.lines.length)
    (hin : ¬ d.StartsInside k)
    (hbare : ∀ j, i ≤ j → j < k → isBareCloserLine (d.lineOf j) = true) : ¬ d.StartsInside i := by
  induction hik with
  | refl => exact hin
  | step hik ih =>
    refine ih (Nat.le_of_succ_le hk) (fun hk' => hin ?_) fun j hj hjk => ?_
    · exact d.startsInside_succ hk hk' (hbare _ hik (Nat.lt_succ_self _))
    · exact hbare j hj (Nat.lt_succ_of_lt hjk)

/-- An edit for a line at most some lines above a closer line, if it and all lines between are bare
closer lines that have a column. -/
structure AlignsAbove (maxSteps steps line : Nat) (edit : IndentEdit) (i : Nat) : Prop where
  line_eq : edit.line = i
  lt : i < line
  le : line ≤ i + steps
  column_eq : d.closerColumnAt maxSteps i = some edit.column
  bare : ∀ j, i ≤ j → j < line → isBareCloserLine (d.lineOf j) = true
  matched : ∀ j, i ≤ j → j < line → (d.closerColumnAt maxSteps j).isSome

/-- The line directly above comes first. -/
theorem alignsAbove_succ_iff {maxSteps steps k : Nat} {edit : IndentEdit} {column : Int}
    (hbare : isBareCloserLine (d.lineOf k) = true)
    (hcolumn : d.closerColumnAt maxSteps k = some column) :
    (∃ i, d.AlignsAbove maxSteps (steps + 1) (k + 1) edit i) ↔
      edit = ⟨k, column⟩ ∨ ∃ i, d.AlignsAbove maxSteps steps k edit i := by
  constructor
  · rintro ⟨i, hi⟩
    have hle := hi.le
    rcases Nat.lt_or_eq_of_le (Nat.lt_succ_iff.mp hi.lt) with hlt | rfl
    · exact .inr ⟨i, hi.line_eq, hlt, by omega, hi.column_eq,
        fun j hj hjk => hi.bare j hj (Nat.lt_succ_of_lt hjk),
        fun j hj hjk => hi.matched j hj (Nat.lt_succ_of_lt hjk)⟩
    · obtain ⟨line, column'⟩ := edit
      obtain rfl : column = column' := Option.some.inj (hcolumn.symm.trans hi.column_eq)
      obtain rfl : line = i := hi.line_eq
      exact .inl rfl
  · -- the line directly above joins those between
    have hlast {i : Nat} {P : Nat → Prop} (hk : P k) (hrest : ∀ j, i ≤ j → j < k → P j) (j : Nat)
        (hj : i ≤ j) (hjk : j < k + 1) : P j := by
      rcases Nat.lt_or_eq_of_le (Nat.lt_succ_iff.mp hjk) with hlt | rfl
      · exact hrest j hj hlt
      · exact hk
    have hmatched : (d.closerColumnAt maxSteps k).isSome := by
      rw [hcolumn, Option.isSome_some]
    rintro (rfl | ⟨i, hi⟩)
    · exact ⟨k, rfl, Nat.lt_succ_self k, by omega, hcolumn,
        hlast hbare fun j hj hjk => absurd hjk (Nat.not_lt.mpr hj),
        hlast hmatched fun j hj hjk => absurd hjk (Nat.not_lt.mpr hj)⟩
    · have hlt := hi.lt
      have hle := hi.le
      exact ⟨i, hi.line_eq, by omega, by omega, hi.column_eq, hlast hbare hi.bare,
        hlast hmatched hi.matched⟩

/-- **The edits for the lines above** a closer line. -/
theorem mem_alignAbove_iff {maxSteps steps k : Nat} {edit : IndentEdit} :
    edit ∈ d.alignAbove maxSteps steps k ↔ ∃ i, d.AlignsAbove maxSteps steps k edit i := by
  induction steps generalizing k with
  | zero =>
    rw [alignAbove]
    refine iff_of_false List.not_mem_nil fun ⟨i, hi⟩ => ?_
    have hlt := hi.lt
    have hle := hi.le
    omega
  | succ steps ih =>
    cases k with
    | zero => exact iff_of_false List.not_mem_nil fun ⟨i, hi⟩ => Nat.not_lt_zero i hi.lt
    | succ k =>
      -- the walk ends at a line above that is no bare closer line, or that has no column
      have hlast {i : Nat} (hi : d.AlignsAbove maxSteps (steps + 1) (k + 1) edit i) :
          isBareCloserLine (d.lineOf k) = true ∧ (d.closerColumnAt maxSteps k).isSome :=
        have hik := Nat.lt_succ_iff.mp hi.lt
        ⟨hi.bare k hik (Nat.lt_succ_self k), hi.matched k hik (Nat.lt_succ_self k)⟩
      rw [alignAbove]
      split
      · next hbare =>
        split
        · next column hcolumn =>
          rw [List.mem_cons, ih, d.alignsAbove_succ_iff hbare hcolumn]
        · next hcolumn =>
          refine iff_of_false List.not_mem_nil fun ⟨i, hi⟩ => ?_
          have hmatched := (hlast hi).2
          rw [hcolumn] at hmatched
          cases hmatched
      · next hbare => exact iff_of_false List.not_mem_nil fun ⟨i, hi⟩ => hbare (hlast hi).1

/-- An edit is for the line itself, or for a bare closer line above it. -/
theorem exists_line_of_mem_editsFor {table : IndentTable} {k : Nat} {edit : IndentEdit}
    (h : edit ∈ d.editsFor table k) :
    ¬ d.StartsInside k ∧
      (edit = ⟨k, d.ownColumn table k⟩ ∨
        ∃ i, d.AlignsAbove table.maxSteps table.maxDedentSteps k edit i) := by
  rw [editsFor] at h
  split at h
  · cases h
  next hin =>
  refine ⟨hin, ?_⟩
  rw [ownColumn]
  split at h
  · next hnil =>
    rw [List.mem_singleton] at h
    rw [h, hnil]
    exact .inl rfl
  · next hcons =>
    cases hal : d.alignment table.maxSteps table.maxDedentSteps k with
    | nil => exact absurd hal hcons
    | cons first rest =>
      have hfirst := hal
      rw [hal] at h
      rw [alignment] at hfirst
      split at hfirst
      · split at hfirst
        · cases hfirst
          rcases List.mem_cons.mp h with rfl | h
          · exact .inl rfl
          · exact .inr (d.mem_alignAbove_iff.mp h)
        · cases hfirst
      · cases hfirst

/-- **No edit is for a line inside** a string or a comment: a bare closer line does not end one, so
the line to be indented would start inside it too. -/
theorem not_startsInside_of_mem_editsFor {table : IndentTable} {k : Nat} (hk : k < d.lines.length)
    {edit : IndentEdit} (h : edit ∈ d.editsFor table k) :
    ∃ i : Nat, edit.line = i ∧ i < d.lines.length ∧ ¬ d.StartsInside i := by
  obtain ⟨hin, rfl | ⟨i, hi⟩⟩ := d.exists_line_of_mem_editsFor h
  · exact ⟨k, rfl, hk, hin⟩
  · exact ⟨i, hi.line_eq, Nat.lt_trans hi.lt hk,
      d.not_startsInside_of_bare (Nat.le_of_lt hi.lt) (Nat.le_of_lt hk) hin hi.bare⟩

end

/-! ### Making the edits -/

variable {d : Document}

theorem mem_bottomUp {edits : List IndentEdit} {edit : IndentEdit} :
    edit ∈ bottomUp edits ↔ edit ∈ edits :=
  List.mem_mergeSort

/-- Edits for lines that do not start inside anything reindent. -/
theorem applyInOrder_reindents {edits : List IndentEdit}
    (h : ∀ edit ∈ edits, ∃ i : Nat, edit.line = i ∧ i < d.lines.length ∧ ¬ d.StartsInside i) :
    ∃ d' n, d.applyInOrder edits = (d', .ok n) ∧ d.Reindents d' := by
  induction edits generalizing d with
  | nil => exact ⟨d, 0, rfl, .refl d⟩
  | cons edit rest ih =>
    obtain ⟨i, hline, hi, hin⟩ := h edit (by simp)
    -- the lines of the other edits start inside nothing after this one either
    obtain ⟨d₁, changed, hset⟩ : ∃ d₁ changed,
        d.setLineIndentation i edit.column = .ok (d₁, changed) := by
      rw [setLineIndentation_of_lt d hi]
      exact ⟨_, _, rfl⟩
    have hstep := Reindents.of_setLineIndentation hi hin hset
    obtain ⟨d', n, hrest, hreindents⟩ := ih (d := d₁) fun e he => by
      obtain ⟨j, hj, hjlt, hjin⟩ := h e (by simp [he])
      refine ⟨j, hj, by rw [hstep.length_eq]; exact hjlt, fun hin => hjin ?_⟩
      exact (hstep.startsInside_iff (Nat.le_of_lt hjlt)).mp hin
    refine ⟨d', n + changed.toNat, ?_, hstep.trans hreindents⟩
    rw [applyInOrder, hline, hset]
    simp only [hrest]
    rfl

theorem applyIndentEdits_reindents (table : IndentTable) {k : Nat} (hk : k < d.lines.length) :
    ∃ d' n, d.applyIndentEdits (d.editsFor table k) = (d', .ok n) ∧ d.Reindents d' := by
  apply applyInOrder_reindents
  intro edit hedit
  exact d.not_startsInside_of_mem_editsFor hk (mem_bottomUp.mp hedit)

/-- **Indenting a line reindents.** -/
theorem indentLine_reindents (d : Document) (offset : Int) (table : IndentTable) :
    d.Reindents (d.indentLine offset table).1 := by
  obtain ⟨k, hk, hline, -, -⟩ := d.exists_lineAt offset
  rw [indentLine, d.computeIndent_eq table hk hline]
  obtain ⟨d', n, happly, hreindents⟩ := applyIndentEdits_reindents table hk
  cases hedits : d.editsFor table k with
  | nil => exact .refl d
  | cons edit rest =>
    rw [hedits] at happly
    simp only [happly]
    exact hreindents

theorem lineAt_above (d : Document) {k : Nat} (hk : k < d.lines.length) :
    d.lineAt (Text.above d.lines k).length = k :=
  d.lineAt_of_le hk (Nat.le_refl _) (Nat.le_add_right ..)

/-- A line of a region gets the edits for it, unless it is blank. -/
theorem indentRegionLine_eq (d : Document) (table : IndentTable) {k : Nat}
    (hk : k < d.lines.length) :
    d.indentRegionLine k table =
      if d.lines[k].blanks.length == (dropFinalReturn d.lines[k]).length then (d, .ok 0)
      else d.applyIndentEdits (d.editsFor table k) := by
  rw [indentRegionLine, lineIndentation_of_lt d hk]
  simp only [d.computeIndent_eq table hk (d.lineAt_above hk)]

theorem indentLines_reindents (table : IndentTable) {lines : List Int}
    (h : ∀ line ∈ lines, ∃ k : Nat, line = k ∧ k < d.lines.length) :
    ∃ d' n, d.indentLines table lines = (d', .ok n) ∧ d.Reindents d' := by
  induction lines generalizing d with
  | nil => exact ⟨d, 0, rfl, .refl d⟩
  | cons line rest ih =>
    obtain ⟨k, rfl, hk⟩ := h line (by simp)
    obtain ⟨d₁, m, hline, hstep⟩ : ∃ d₁ m,
        d.indentRegionLine k table = (d₁, .ok m) ∧ d.Reindents d₁ := by
      rw [d.indentRegionLine_eq table hk]
      split
      · exact ⟨d, 0, rfl, .refl d⟩
      · exact applyIndentEdits_reindents table hk
    obtain ⟨d', n, hrest, hreindents⟩ := ih (d := d₁) fun l hl => by
      rw [hstep.length_eq]
      exact h l (by simp [hl])
    refine ⟨d', m + n, ?_, hstep.trans hreindents⟩
    rw [indentLines, hline]
    simp only [hrest]
    rfl

theorem exists_of_mem_linesFrom (d : Document) {first last line : Int}
    (h : line ∈ d.linesFrom first last) : ∃ k : Nat, line = k ∧ k < d.lines.length := by
  rw [linesFrom, lineCount_eq] at h
  obtain ⟨i, hi, rfl⟩ := List.mem_map.mp h
  rw [List.mem_range] at hi
  exact ⟨(max 0 first).toNat + i, by omega, by omega⟩

/-- **Indenting a region reindents.** -/
theorem indentRegion_reindents (d : Document) (first last : Int) (table : IndentTable) :
    d.Reindents (d.indentRegion first last table).1 := by
  obtain ⟨d', n, hlines, hreindents⟩ :=
    indentLines_reindents table fun line (h : line ∈ d.linesFrom first last) =>
      d.exists_of_mem_linesFrom h
  rw [indentRegion, hlines]
  exact hreindents

end Document

end SexpEditing
