import SexpEditing.Proofs.Indent.Changes

/-!
# Edits of different lines

An edit replaces the leading blanks of a line. Line feeds are no blanks, so it moves no line to
another place among the lines, however much shorter or longer it makes the text. Edits of different
lines therefore do not meet: in any order they make the same document.

## Main definitions

* `Text.indentedBy`: the lines of a text, each indented as the edit for it says

## Main results

* `Document.lines_applyInOrder`: what edits of different lines make of a document
* `Document.version_applyInOrder`: the version counts the changes
* `Document.applyIndentEdits_perm`: edits of different lines commute
-/

namespace SexpEditing

open CodeUnit

namespace Text

/-- Some lines, each indented as the first edit for it says. A line without an edit stays as it
is. -/
def indentedBy (edits : List IndentEdit) (ls : List Text) : List Text :=
  ls.mapIdx fun k l =>
    ((edits.find? fun edit => edit.line == (k : Int)).map fun edit =>
      l.indented edit.column).getD l

variable {edits : List IndentEdit} {k : Nat}

theorem getElem?_indentedBy_of_mem (hdistinct : (edits.map IndentEdit.line).Nodup)
    {edit : IndentEdit} (h : edit ∈ edits) (hk : edit.line = k) (ls : List Text) :
    (indentedBy edits ls)[k]? = ls[k]?.map (indented edit.column) := by
  have hfind : edits.find? (fun e => e.line == (k : Int)) = some edit := by
    cases hf : edits.find? fun e => e.line == (k : Int) with
    | none => exact absurd hk (by simpa using List.find?_eq_none.mp hf edit h)
    | some found =>
      have hline : found.line = k := by simpa using List.find?_some hf
      rw [List.inj_on_of_nodup_map hdistinct (List.mem_of_find?_eq_some hf) h
        (hline.trans hk.symm)]
  rw [indentedBy, List.getElem?_mapIdx, hfind]
  rfl

theorem getElem?_indentedBy_of_ne (h : ∀ edit ∈ edits, edit.line ≠ k) (ls : List Text) :
    (indentedBy edits ls)[k]? = ls[k]? := by
  have hfind : edits.find? (fun e => e.line == (k : Int)) = none :=
    List.find?_eq_none.mpr fun edit hedit => by simpa using h edit hedit
  rw [indentedBy, List.getElem?_mapIdx, hfind]
  exact Option.map_id'

/-- The order of edits of different lines does not matter. -/
theorem indentedBy_perm {edits' : List IndentEdit} (hperm : edits'.Perm edits)
    (hdistinct : (edits.map IndentEdit.line).Nodup) (ls : List Text) :
    indentedBy edits' ls = indentedBy edits ls := by
  have hdistinct' : (edits'.map IndentEdit.line).Nodup :=
    (hperm.map IndentEdit.line).nodup_iff.mpr hdistinct
  refine List.ext_getElem? fun j => ?_
  by_cases h : ∃ edit ∈ edits, edit.line = j
  · obtain ⟨edit, hedit, hline⟩ := h
    rw [getElem?_indentedBy_of_mem hdistinct hedit hline,
      getElem?_indentedBy_of_mem hdistinct' (hperm.mem_iff.mpr hedit) hline]
  · have hne : ∀ edit ∈ edits, edit.line ≠ j := fun edit hedit hline => h ⟨edit, hedit, hline⟩
    rw [getElem?_indentedBy_of_ne hne,
      getElem?_indentedBy_of_ne fun edit hedit => hne edit (hperm.mem_iff.mp hedit)]

end Text

namespace Document

variable {d d' : Document} {edits : List IndentEdit}

/-- The document with some lines and a version. -/
theorem eq_atVersion_lines (d : Document) :
    d = atVersion d.version ([lineFeed].intercalate d.lines) := by
  rw [← text_eq_intercalate, ← eq_atVersion]

/-! ### The version -/

theorem version_of_setLineIndentation {line column : Int} {changed : Bool}
    (h : d.setLineIndentation line column = .ok (d', changed)) :
    d'.version = d.version + changed.toNat := by
  obtain ⟨k, hk, rfl, -⟩ := exists_of_setLineIndentation h
  rw [setLineIndentation_of_lt d hk] at h
  split at h
  · cases h
    rfl
  · cases h
    rfl

/-- **The version** grows by one for each change that is counted. -/
theorem version_applyInOrder {n : Nat} (h : d.applyInOrder edits = (d', .ok n)) :
    d'.version = d.version + n := by
  induction edits generalizing d n with
  | nil =>
    cases h
    rfl
  | cons edit rest ih =>
    rw [applyInOrder] at h
    cases hset : d.setLineIndentation edit.line edit.column with
    | error e =>
      rw [hset] at h
      cases h
    | ok made =>
      obtain ⟨y, changed⟩ := made
      rw [hset] at h
      obtain ⟨hd', hcount⟩ := Prod.mk.inj h
      cases hrest : (y.applyInOrder rest).2 with
      | error e =>
        rw [hrest] at hcount
        cases hcount
      | ok m =>
        rw [hrest] at hcount
        have hm : m + changed.toNat = n := Except.ok.inj hcount
        rw [ih (Prod.ext hd' hrest), version_of_setLineIndentation hset, ← hm]
        omega

/-! ### The lines -/

/-- **What edits of different lines make of a document**: each line with an edit is indented as the
edit says, and every other line stays as it was. -/
theorem lines_applyInOrder (hdistinct : (edits.map IndentEdit.line).Nodup)
    (hlines : ∀ edit ∈ edits, ∃ k : Nat, edit.line = k ∧ k < d.lines.length) :
    (d.applyInOrder edits).1.lines = Text.indentedBy edits d.lines := by
  refine List.ext_getElem? fun j => ?_
  by_cases h : ∃ edit ∈ edits, edit.line = j
  · obtain ⟨edit, hedit, hline⟩ := h
    rw [Text.getElem?_indentedBy_of_mem hdistinct hedit hline]
    rcases d.getElem?_applyInOrder edits j with hsame | ⟨other, hother, hline', l, hl, hset⟩
    · -- a line that an edit leaves as it was is indented already as the edit says
      obtain ⟨k, hk, hk', hblanks⟩ := obeys_applyInOrder hlines (fun e he e' he' hee' => by
        rw [List.inj_on_of_nodup_map hdistinct he he' hee']) hedit
      obtain rfl : k = j := Int.ofNat.inj (hk'.symm.trans hline)
      rw [← hsame, List.getElem?_eq_getElem hk, Option.map_some,
        Text.indented_eq_self_iff.mpr hblanks]
    · obtain rfl : other = edit :=
        List.inj_on_of_nodup_map hdistinct hother hedit (hline'.trans hline.symm)
      rw [hset, hl, Option.map_some]
  · rw [Text.getElem?_indentedBy_of_ne fun edit hedit hline => h ⟨edit, hedit, hline⟩]
    refine (d.getElem?_applyInOrder edits j).resolve_right ?_
    rintro ⟨edit, hedit, hline, -⟩
    exact h ⟨edit, hedit, hline⟩

/-- Only lines with an edit differ afterwards. -/
theorem exists_edit_of_mem_changedLines (hlines : d'.lines = Text.indentedBy edits d.lines)
    {k : Nat} (h : k ∈ d.changedLines d') : ∃ edit ∈ edits, edit.line = k := by
  by_contra hnone
  refine (mem_changedLines.mp h).2 ?_
  rw [hlines, Text.getElem?_indentedBy_of_ne fun edit hedit hline => hnone ⟨edit, hedit, hline⟩]

/-! ### Any order -/

/-- **Edits of different lines commute.** In any order they make the same document and the same
count. Each line with an edit has its leading blanks replaced by as many spaces as the column says,
or by none if it is negative; the rest of the text is kept. The count is the number of lines that
differ, all of which have an edit, and the version grows by it. -/
theorem applyIndentEdits_perm (d : Document) (edits : List IndentEdit)
    (hdistinct : (edits.map IndentEdit.line).Nodup)
    (hvalid : ∀ edit ∈ edits, 0 ≤ edit.line ∧ edit.line < d.lineCount) :
    ∃ (d' : Document) (n : Nat),
      (∀ edits' : List IndentEdit, edits'.Perm edits → d.applyIndentEdits edits' = (d', .ok n)) ∧
      d'.text = [lineFeed].intercalate (Text.indentedBy edits d.lines) ∧
      n = (d.changedLines d').card ∧ (∀ k ∈ d.changedLines d', ∃ edit ∈ edits, edit.line = k) ∧
      d'.version = d.version + n := by
  have hlines : ∀ edit ∈ edits, ∃ k : Nat, edit.line = k ∧ k < d.lines.length := by
    intro edit hedit
    obtain ⟨hpos, hlt⟩ := hvalid edit hedit
    rw [lineCount_eq] at hlt
    exact ⟨edit.line.toNat, by omega, by omega⟩
  -- what one order makes, said by lines, count and version
  have hmade (edits' : List IndentEdit) (hperm : edits'.Perm edits) :
      ∃ d' n, d.applyInOrder edits' = (d', .ok n) ∧
        d'.lines = Text.indentedBy edits d.lines ∧ (d.changedLines d').card = n ∧
        d'.version = d.version + n := by
    have hdistinct' : (edits'.map IndentEdit.line).Nodup :=
      (hperm.map IndentEdit.line).nodup_iff.mpr hdistinct
    have hlines' : ∀ edit ∈ edits', ∃ k : Nat, edit.line = k ∧ k < d.lines.length :=
      fun edit hedit => hlines edit (hperm.mem_iff.mp hedit)
    obtain ⟨n, hn, hcard⟩ := card_changedLines_applyInOrder (x := d) (d := d) rfl hlines'
      (fun e he e' he' hee' => by rw [List.inj_on_of_nodup_map hdistinct' he he' hee'])
      fun edit _ => .inr fun k _ => rfl
    rw [changedLines_self, Finset.card_empty, Nat.zero_add] at hcard
    have happly : d.applyInOrder edits' = ((d.applyInOrder edits').1, .ok n) := Prod.ext rfl hn
    refine ⟨_, n, happly, ?_, hcard, version_applyInOrder happly⟩
    rw [lines_applyInOrder hdistinct' hlines', Text.indentedBy_perm hperm hdistinct]
  obtain ⟨d', n, -, hd', hcard, hversion⟩ := hmade edits (.refl edits)
  refine ⟨d', n, fun edits' hperm => ?_, ?_, hcard.symm,
    fun k hk => exists_edit_of_mem_changedLines hd' hk, hversion⟩
  · -- sorting the edits is one more change of their order
    obtain ⟨e', m, happly, he', hcard', hversion'⟩ :=
      hmade (bottomUp edits') ((List.mergeSort_perm edits' _).trans hperm)
    have hm : m = n := by
      rw [← hcard, ← hcard', changedLines, changedLines, he', hd']
    rw [hm] at happly hversion'
    rw [applyIndentEdits, happly, e'.eq_atVersion_lines, d'.eq_atVersion_lines, he', hd',
      hversion', hversion]
  · rw [text_eq_intercalate, hd']

/-- Two edits: one for a line that ends with a carriage return and one, to a negative column, for
the last line. -/
theorem applyIndentEdits_perm_two :
    let d := ofText (Text.ofString "\t(a\r\n b\n  c")
    let edits : List IndentEdit := [⟨0, 2⟩, ⟨2, -1⟩]
    ((edits.map IndentEdit.line).Nodup ∧
      ∀ edit ∈ edits, 0 ≤ edit.line ∧ edit.line < d.lineCount) ∧
    [lineFeed].intercalate (Text.indentedBy edits d.lines) = Text.ofString "  (a\r\n b\nc" ∧
    ∃ (d' : Document) (n : Nat),
      (∀ edits' : List IndentEdit, edits'.Perm edits → d.applyIndentEdits edits' = (d', .ok n)) ∧
      d'.text = [lineFeed].intercalate (Text.indentedBy edits d.lines) ∧
      n = (d.changedLines d').card ∧ (∀ k ∈ d.changedLines d', ∃ edit ∈ edits, edit.line = k) ∧
      d'.version = d.version + n := by
  have hdistinct : (([⟨0, 2⟩, ⟨2, -1⟩] : List IndentEdit).map IndentEdit.line).Nodup := by decide
  have hvalid : ∀ edit ∈ ([⟨0, 2⟩, ⟨2, -1⟩] : List IndentEdit),
      0 ≤ edit.line ∧ edit.line < (ofText (Text.ofString "\t(a\r\n b\n  c")).lineCount := by
    decide
  exact ⟨⟨hdistinct, hvalid⟩, by decide, applyIndentEdits_perm _ _ hdistinct hvalid⟩

end Document

end SexpEditing
