import SexpEditing.Proofs.Indent.Changes
import SexpEditing.Proofs.Token.Cuts

/-!
# Breaking a line

A line that is broken at an offset becomes two: what precedes the offset, without the blanks at its
end, and what follows. Then the second of them is indented like any other line, and closer lines
above may be aligned with it, the first of the two among them.

## Main definitions

* `Document.SplitAt`: what precedes an offset in its line, and what follows
* `Document.broken`: the document with the line broken, before the new line is indented

## Main results

* `Document.SplitAt.lines_broken`: the lines of the broken document
* `Document.SplitAt.exists_newlineAndIndent_eq`: what breaking a line does, and what it answers
* `Document.newlineAndIndent_lines`: the lines afterwards, and the offset that is answered
-/

namespace SexpEditing

open CodeUnit

namespace Document

/-- What precedes an offset in its line, and what follows. -/
structure SplitAt (d : Document) (offset : Int) (k : Nat) (before rest : Text) : Prop where
  line_eq : d.lines[k]? = some (before ++ rest)
  offset_eq : offset = (Text.above d.lines k).length + before.length

/-- A document in which a line is broken between two texts, and the blanks before the break are
dropped. -/
def broken (d : Document) (k : Nat) (before rest : Text) : Document :=
  atVersion (d.version + 1)
    (Text.above d.lines k ++ before.trimmed ++ [lineFeed] ++ (rest ++ Text.below d.lines k))

/-- Every offset of the text splits its line. -/
theorem exists_splitAt (d : Document) {offset : Int} (h₀ : 0 ≤ offset) (h : offset ≤ d.length) :
    ∃ k before rest, d.SplitAt offset k before rest := by
  obtain ⟨n, rfl⟩ := Int.eq_ofNat_of_zero_le h₀
  obtain ⟨k, hk, -, hlo, hhi⟩ := d.exists_lineAt n
  rw [clamp_of_le d (Int.ofNat_le.mp h)] at hlo hhi
  refine ⟨k, d.lines[k].take (n - (Text.above d.lines k).length),
    d.lines[k].drop (n - (Text.above d.lines k).length), ?_, ?_⟩
  · rw [List.take_append_drop, List.getElem?_eq_getElem hk]
  · rw [List.length_take_of_le (by omega)]
    omega

namespace SplitAt

variable {d : Document} {offset : Int} {k : Nat} {before rest : Text}
  (h : d.SplitAt offset k before rest)
include h

theorem lt_length : k < d.lines.length := (List.getElem?_eq_some_iff.mp h.line_eq).1

theorem getElem_eq (hk : k < d.lines.length) : d.lines[k] = before ++ rest := by
  have hline := h.line_eq
  rwa [List.getElem?_eq_getElem hk, Option.some.injEq] at hline

theorem text_eq : d.text = Text.above d.lines k ++ before ++ (rest ++ Text.below d.lines k) := by
  rw [text_eq_around d h.lt_length, h.getElem_eq h.lt_length]
  simp only [List.append_assoc]

theorem lineAt_eq : d.lineAt offset = k := by
  have hoffset : offset = ((Text.above d.lines k).length + before.length : Nat) := h.offset_eq
  rw [hoffset]
  apply d.lineAt_of_le h.lt_length
  · exact Nat.le_add_right ..
  · rw [h.getElem_eq h.lt_length, List.length_append]
    omega

theorem le_length : offset ≤ d.length := by
  rw [← length_text, h.text_eq, h.offset_eq]
  simp only [List.length_append]
  omega

theorem readRange_eq : d.readRange (Text.above d.lines k).length offset = before := by
  rw [h.offset_eq]
  exact readRange_of_append h.text_eq

/-- The break comes right behind what is kept of the line. -/
theorem breakOffset_eq :
    d.breakOffset offset =
      .ok (Text.above d.lines k ++ before.trimmed).length := by
  have hlength := congrArg List.length (Text.trimmed_append_trail before)
  rw [List.length_append] at hlength
  rw [breakOffset, h.lineAt_eq, lineStart_of_lt d h.lt_length]
  simp only [bind, Except.bind]
  rw [if_pos h.le_length, h.readRange_eq, ← Text.length_trail, List.length_append, h.offset_eq]
  show Except.ok _ = _
  congr 1
  omega

/-- The blanks before the break make room for a line feed. -/
theorem replaceRange_eq :
    d.replaceRange (Text.above d.lines k ++ before.trimmed).length offset [lineFeed] =
      .ok (d.broken k before rest) := by
  have htext : d.text = (Text.above d.lines k ++ before.trimmed) ++ before.trail ++
      (rest ++ Text.below d.lines k) := by
    rw [List.append_assoc (Text.above d.lines k), Text.trimmed_append_trail, h.text_eq]
  have hoffset : offset =
      (Text.above d.lines k ++ before.trimmed).length + before.trail.length := by
    have hlength := congrArg List.length (Text.trimmed_append_trail before)
    rw [List.length_append] at hlength
    rw [h.offset_eq, List.length_append]
    omega
  rw [hoffset]
  exact replaceRange_of_append htext [lineFeed]

/-- **The lines of the broken document.** -/
theorem lines_broken : (d.broken k before rest).lines =
    d.lines.take k ++ before.trimmed :: rest :: d.lines.drop (k + 1) := by
  have hk := Nat.le_of_lt h.lt_length
  have hfeed : lineFeed ∉ before ++ rest := by
    rw [← h.getElem_eq h.lt_length]
    exact not_mem_of_mem_lines (List.getElem_mem h.lt_length)
  rw [List.mem_append, not_or] at hfeed
  have htext : [lineFeed].intercalate (d.lines.take k ++ before.trimmed :: rest ::
      d.lines.drop (k + 1)) =
      Text.above d.lines k ++ before.trimmed ++ [lineFeed] ++ (rest ++ Text.below d.lines k) := by
    have hlen : (d.lines.take k).length = k := List.length_take_of_le hk
    rw [Text.intercalate_eq_around (k := k + 1) (by simp; omega)]
    -- the new line has the lines above and the first half of the broken line above it
    have habove : Text.above (d.lines.take k ++ before.trimmed :: rest :: d.lines.drop (k + 1))
        (k + 1) = Text.above d.lines k ++ before.trimmed ++ [lineFeed] := by
      unfold Text.above
      rw [List.take_append, hlen, List.take_of_length_le (by omega), Nat.add_sub_cancel_left]
      simp
    have hbelow : Text.below (d.lines.take k ++ before.trimmed :: rest :: d.lines.drop (k + 1))
        (k + 1) = Text.below d.lines k := by
      unfold Text.below
      rw [List.drop_append, hlen, List.drop_of_length_le (by omega)]
      simp [show k + 1 + 1 - k = 2 by omega]
    rw [habove, hbelow, List.getElem_append_right (by omega)]
    simp [hlen]
  rw [broken, ← htext]
  apply lines_atVersion
  · simp
  · intro l hl
    rw [List.mem_append, List.mem_cons, List.mem_cons] at hl
    rcases hl with hl | rfl | rfl | hl
    · exact not_mem_of_mem_lines (List.mem_of_mem_take hl)
    · intro hmem
      exact hfeed.1 ((List.rdropWhile_prefix isIndentation before).subset hmem)
    · exact hfeed.2
    · exact not_mem_of_mem_lines (List.mem_of_mem_drop hl)

theorem length_take : (d.lines.take k).length = k :=
  List.length_take_of_le (Nat.le_of_lt h.lt_length)

theorem length_broken : (d.broken k before rest).lines.length = d.lines.length + 1 := by
  have hlt := h.lt_length
  rw [h.lines_broken, List.length_append, h.length_take, List.length_cons, List.length_cons,
    List.length_drop]
  omega

theorem getElem?_broken_of_lt {j : Nat} (hj : j < k) :
    (d.broken k before rest).lines[j]? = d.lines[j]? := by
  rw [h.lines_broken, List.getElem?_append_left (by rw [h.length_take]; exact hj),
    List.getElem?_take_of_lt hj]

theorem getElem?_broken : (d.broken k before rest).lines[k]? = some before.trimmed := by
  rw [h.lines_broken, List.getElem?_append_right (by rw [h.length_take]), h.length_take,
    Nat.sub_self]
  rfl

theorem getElem?_broken_succ : (d.broken k before rest).lines[k + 1]? = some rest := by
  rw [h.lines_broken, List.getElem?_append_right (by rw [h.length_take]; omega), h.length_take,
    Nat.add_sub_cancel_left]
  rfl

theorem getElem?_broken_of_gt {j : Nat} (hj : k < j) :
    (d.broken k before rest).lines[j + 1]? = d.lines[j]? := by
  rw [h.lines_broken, List.getElem?_append_right (by rw [h.length_take]; omega), h.length_take]
  obtain ⟨i, rfl⟩ := Nat.exists_eq_add_of_lt hj
  rw [show k + i + 1 + 1 - k = i + 2 by omega, List.getElem?_cons_succ, List.getElem?_cons_succ,
    List.getElem?_drop]
  congr 1
  omega

theorem above_broken : Text.above (d.broken k before rest).lines k = Text.above d.lines k := by
  unfold Text.above
  rw [h.lines_broken, List.take_append_of_le_length (by rw [h.length_take]), List.take_take,
    Nat.min_self]

/-- **What breaking a line does**: it indents the new line of the broken document, and answers where
the blanks of the new line end. -/
theorem exists_newlineAndIndent_eq (table : IndentTable) :
    ∃ d' l, d.newlineAndIndent offset table =
        (d', .ok ((Text.above d'.lines (k + 1)).length + l.blanks.length)) ∧
      d'.lines[k + 1]? = some l ∧ (d.broken k before rest).Reindents d' ∧
      ∀ j, d'.lines[j]? ≠ (d.broken k before rest).lines[j]? →
        j ≤ k + 1 ∧ (d.broken k before rest).BareRun j (k + 1) := by
  have hlen := h.length_broken
  have hlt := h.lt_length
  have hk : k < (d.broken k before rest).lines.length := by omega
  have hk' : k + 1 < (d.broken k before rest).lines.length := by omega
  -- the break is made at the end of the line that is broken
  have hline : (d.broken k before rest).lines[k] = before.trimmed := by
    have hbroken := h.getElem?_broken
    rwa [List.getElem?_eq_getElem hk, Option.some.injEq] at hbroken
  have hlineAt : (d.broken k before rest).lineAt
      (Text.above d.lines k ++ before.trimmed).length = k := by
    rw [← h.above_broken]
    apply lineAt_of_le _ hk
    · rw [List.length_append]
      exact Nat.le_add_right ..
    · rw [hline, List.length_append]
  have hnew : (k : Int) + 1 = (k + 1 : Nat) := (Int.natCast_succ k).symm
  obtain ⟨d', l, hindent, hl, hreindents, hframe⟩ :=
    exists_indentLine_eq table hk' (lineAt_above _ hk')
  refine ⟨d', l, ?_, hl, hreindents, hframe⟩
  rw [newlineAndIndent, h.breakOffset_eq]
  simp only [h.replaceRange_eq, hlineAt]
  rw [hnew, lineStart_of_lt _ hk']
  simp only [hindent]
  rw [lineStart_of_lt d' (hreindents.lt_length hk')]
  rfl

end SplitAt

/-- **Breaking a line** at an offset of the text. There is one line more. The line keeps what
precedes the offset, without the blanks at its end; only if these are closing delimiters that are
aligned with the new line, its leading blanks may change as well. The new line holds what follows
the offset, behind blanks of its own, and the answer is the offset where these end. The lines above
keep what follows their blanks, and the lines below are as they were. -/
theorem newlineAndIndent_lines (d : Document) (table : IndentTable) {offset : Int}
    (h₀ : 0 ≤ offset) (h : offset ≤ d.length) :
    ∃ (k : Nat) (start : Int) (before rest : Text) (d' : Document)
      (indentation : LineIndentation),
      d.lineAt offset = k ∧ d.lineStart k = .ok start ∧ start + before.length = offset ∧
      d.lines[k]? = some (before ++ rest) ∧
      d.newlineAndIndent offset table = (d', .ok (indentation.start + indentation.width)) ∧
      d'.lineIndentation (k + 1) = .ok indentation ∧ d'.lineCount = d.lineCount + 1 ∧
      (d'.lines[k]? = some before.trimmed ∨
        isBareCloserLine (dropFinalReturn before.trimmed) = true ∧
          ∃ l, d'.lines[k]? = some l ∧ l.body = before.trimmed.body) ∧
      (∃ blanks, d'.lines[k + 1]? = some (blanks ++ rest.body) ∧
        blanks.length = indentation.width ∧ ∀ c ∈ blanks, c.isIndentation) ∧
      (∀ j < k, (d'.lines[j]?).map Text.body = (d.lines[j]?).map Text.body) ∧
      ∀ j > k, d'.lines[j + 1]? = d.lines[j]? := by
  obtain ⟨k, before, rest, hsplit⟩ := d.exists_splitAt h₀ h
  have hlt := hsplit.lt_length
  have hlen := hsplit.length_broken
  obtain ⟨d', l, hnewline, hl, hreindents, hframe⟩ := hsplit.exists_newlineAndIndent_eq table
  -- indenting keeps what follows the blanks, so the bodies are those of the broken document
  have hbody (j : Nat) : (d'.lines[j]?).map Text.body =
      ((d.broken k before rest).lines[j]?).map Text.body := by
    rw [← List.getElem?_map, ← List.getElem?_map, hreindents.bodies_eq]
  have hlines := hreindents.length_eq
  have hk' : k + 1 < d'.lines.length := by omega
  have hlbody : l.body = rest.body := by
    have hbody := hbody (k + 1)
    rw [hl, hsplit.getElem?_broken_succ] at hbody
    exact Option.some.inj hbody
  have hindentation := lineIndentation_of_lt d' hk'
  rw [List.getElem?_eq_getElem hk', Option.some.injEq] at hl
  rw [hl, Int.natCast_succ] at hindentation
  refine ⟨k, _, before, rest, d', _, hsplit.lineAt_eq, lineStart_of_lt d hlt, hsplit.offset_eq.symm,
    hsplit.line_eq, hnewline, hindentation, ?_, ?_, ?_, ?_, ?_⟩
  · rw [lineCount_eq, lineCount_eq, hlines, hlen]
    omega
  · by_cases hsame : d'.lines[k]? = (d.broken k before rest).lines[k]?
    · left
      rw [hsame, hsplit.getElem?_broken]
    · -- it differs, so it is a closer line that is aligned with the new line
      right
      have hbare := (hframe k hsame).2 k (Nat.le_refl k) (Nat.lt_succ_self k)
      rw [lineOf, hsplit.getElem?_broken, Option.getD_some] at hbare
      refine ⟨hbare, ?_⟩
      have hbody := hbody k
      rw [hsplit.getElem?_broken, Option.map_some] at hbody
      exact Option.map_eq_some_iff.mp hbody
  · refine ⟨l.blanks, ?_, rfl, fun c hc => Text.isIndentation_of_mem_blanks hc⟩
    rw [← hlbody, Text.blanks_append_body, List.getElem?_eq_getElem hk', hl]
  · intro j hj
    rw [hbody j, hsplit.getElem?_broken_of_lt hj]
  · -- nothing is edited below the new line
    intro j hj
    by_cases hsame : d'.lines[j + 1]? = (d.broken k before rest).lines[j + 1]?
    · rw [hsame, hsplit.getElem?_broken_of_gt hj]
    · have hle := (hframe (j + 1) hsame).1
      omega

/-- Breaking a list before its closing delimiters, behind a blank: the upper line loses the blank,
and the new line is put under the opening delimiter. -/
theorem newlineAndIndent_lines_closer :
    let d := ofText [leftParen, 0x61, space, rightParen]
    let table : IndentTable := ⟨.empty, [], [], [], [], [], [atSign], 6, 100, 100⟩
    (0 : Int) ≤ 3 ∧ 3 ≤ d.length ∧
      (d.newlineAndIndent 3 table).1.text = [leftParen, 0x61, lineFeed, rightParen] ∧
      ∃ (k : Nat) (d' : Document) (indentation : LineIndentation), d.lineAt 3 = k ∧
        d.newlineAndIndent 3 table = (d', .ok (indentation.start + indentation.width)) ∧
        d'.lineIndentation (k + 1) = .ok indentation ∧ d'.lineCount = d.lineCount + 1 := by
  intro d table
  have hlength : 3 ≤ d.length := by decide
  obtain ⟨k, -, -, -, d', indentation, hline, -, -, -, hnewline, hindentation, hcount, -⟩ :=
    newlineAndIndent_lines d table (by decide) hlength
  exact ⟨by decide, hlength, by decide +kernel, k, d', indentation, hline, hnewline, hindentation,
    hcount⟩

end Document

end SexpEditing
