import SexpEditing.Proofs.Expr.Delimiters
import SexpEditing.Proofs.Indent.Breaking

/-!
# Indenting never fails

However delimiters are placed, and wherever strings and comments end, the edits for a line can be
computed and made: each is for a line of the document, and for a column. Only a break can be
refused, and only at an offset outside the text; then nothing was done.

## Main results

* `TokenIndex.enforce_of_partnerOf`: the delimiter that matches another has the expected kind
* `Document.newlineAndIndent_of_not_mem`: a break outside the text is refused
* `Document.indenting_succeeds`: the edits are applicable, and all requests but such breaks succeed
-/

namespace SexpEditing

open CodeUnit Matching

namespace TokenIndex

theorem kinds_getElem? (index : TokenIndex) (i : Nat) :
    index.kinds[i]? = (index.significant[i]?).map (·.kind) := by
  unfold kinds
  rw [List.getElem?_map, Array.getElem?_toList]

/-- The delimiter that matches an opening one is a closing one, and the other way round. -/
theorem enforce_of_partnerOf (t : Text) {i j : Nat} {u : Token}
    (hu : (ofText t).significant[i]? = some u) (h : (ofText t).partnerOf i = some j) :
    ∃ v, (ofText t).significant[j]? = some v ∧
      v.enforce (if u.kind = .opener then .closer else .opener) = .ok v := by
  have hi : (ofText t).kinds[i]? = some u.kind := by
    rw [kinds_getElem?, hu]
    rfl
  -- what is known of a partner is its kind
  have henforce {kind : TokenKind} (hj : (ofText t).kinds[j]? = some kind) :
      ∃ v, (ofText t).significant[j]? = some v ∧ v.enforce kind = .ok v := by
    rw [kinds_getElem?] at hj
    obtain ⟨v, hv, hkind⟩ := Option.map_eq_some_iff.mp hj
    refine ⟨v, hv, ?_⟩
    unfold Token.enforce
    rw [if_pos ((Token.is_iff v kind).mpr hkind)]
  rcases (partnerOf_iff t i j).mp h with hm | hm
  · rw [if_pos (Option.some.inj (hi.symm.trans hm.opener))]
    exact henforce hm.1
  · have hcloser : u.kind = .closer := Option.some.inj (hi.symm.trans hm.1)
    rw [if_neg (by rw [hcloser]; exact TokenKind.noConfusion)]
    exact henforce hm.opener

end TokenIndex

namespace Document

variable {d : Document}

/-- Going over blanks before an offset outside the text ends at once. -/
theorem breakOffset_of_not_mem {offset : Int} (h : offset < 0 ∨ d.length < offset) :
    d.breakOffset offset = .ok offset := by
  obtain ⟨k, hk, hline, hlo, -⟩ := d.exists_lineAt offset
  rw [breakOffset, hline, lineStart_of_lt d hk]
  simp only [bind, Except.bind]
  have hbefore : (if offset ≤ d.length then
      d.readRange (Text.above d.lines k).length offset else []) = [] := by
    split
    · -- the offset is negative, so what is read is the text between the start and itself
      have hclamp : d.clamp offset = 0 := by
        unfold clamp
        omega
      have hstart : (Text.above d.lines k).length = 0 := by omega
      rw [readRange_eq_slice, Text.slice, ← clamp_eq, ← clamp_eq, hclamp, hstart]
      simp [clamp]
    · rfl
  rw [hbefore]
  show Except.ok (offset - 0) = _
  rw [Int.sub_zero]

/-- **A break outside the text** is refused, and nothing is done. -/
theorem newlineAndIndent_of_not_mem (table : IndentTable) {offset : Int}
    (h : offset < 0 ∨ d.length < offset) :
    d.newlineAndIndent offset table = (d, .error (.invalidRange offset offset d.length)) := by
  rw [newlineAndIndent, breakOffset_of_not_mem h]
  simp only
  rw [replaceRange, if_pos (h.imp_right .inr)]

/-- **Indenting never fails.** At every offset the edits for the line can be computed: there are
none, or they go up line by line from the line of the offset; each is for a line of the document,
and for a column that is not negative. So indenting a line and indenting a region succeed, and the
former answers the width of the line afterwards. No delimiter matches one of the wrong kind.
Breaking a line fails exactly outside the text, and then leaves the document as it was. -/
theorem indenting_succeeds (d : Document) (table : IndentTable) :
    (∀ offset : Int, ∃ edits, d.computeIndent offset table = .ok edits ∧
      ∀ (i : Nat) (edit : IndentEdit), edits[i]? = some edit → edit.line = d.lineAt offset - i ∧
        0 ≤ edit.line ∧ edit.line < d.lineCount ∧ 0 ≤ edit.column) ∧
    (∀ offset : Int, ∃ indentation,
      (d.indentLine offset table).1.lineIndentation (d.lineAt offset) = .ok indentation ∧
        (d.indentLine offset table).2 = .ok indentation.width) ∧
    (∀ first last : Int, ∃ changed, (d.indentRegion first last table).2 = .ok changed) ∧
    (∀ (i j : Nat) (u : Token), (TokenIndex.ofText d.text).significant[i]? = some u →
      (TokenIndex.ofText d.text).partnerOf i = some j →
      ∃ v, (TokenIndex.ofText d.text).significant[j]? = some v ∧
        v.enforce (if u.kind = .opener then .closer else .opener) = .ok v) ∧
    ∀ offset : Int,
      ((∃ error, (d.newlineAndIndent offset table).2 = .error error) ↔
        offset < 0 ∨ d.length < offset) ∧
      ∀ error, (d.newlineAndIndent offset table).2 = .error error →
        error = .invalidRange offset offset d.length ∧
          (d.newlineAndIndent offset table).1 = d := by
  refine ⟨?_, ?_, ?_, ?_, ?_⟩
  · intro offset
    obtain ⟨k, hk, hline, -, -⟩ := d.exists_lineAt offset
    refine ⟨d.editsFor table k, d.computeIndent_eq table hk hline, fun i edit hedit => ?_⟩
    obtain ⟨hik, hedit, hcolumn⟩ := getElem?_editsFor hedit
    rw [hedit, hline, lineCount_eq]
    omega
  · intro offset
    obtain ⟨k, hk, hline, -, -⟩ := d.exists_lineAt offset
    obtain ⟨d', l, hindent, hl, -, -⟩ := exists_indentLine_eq table hk hline
    obtain ⟨hk', rfl⟩ := List.getElem?_eq_some_iff.mp hl
    rw [hindent, hline]
    exact ⟨_, lineIndentation_of_lt d' hk', rfl⟩
  · -- all lines of the region are lines of the document, so each has its turn
    intro first last
    obtain ⟨d', n, hlines, -⟩ :=
      indentLines_reindents table fun line (h : line ∈ d.linesFrom first last) =>
        d.exists_of_mem_linesFrom h
    refine ⟨n, ?_⟩
    rw [indentRegion, hlines]
  · intro i j u hu hj
    exact TokenIndex.enforce_of_partnerOf d.text hu hj
  · intro offset
    by_cases hout : offset < 0 ∨ d.length < offset
    · rw [newlineAndIndent_of_not_mem table hout]
      refine ⟨iff_of_true ⟨_, rfl⟩ hout, fun error herror => ?_⟩
      cases herror
      exact ⟨rfl, rfl⟩
    · -- inside the text the break succeeds
      rw [not_or, Int.not_lt, Int.not_lt] at hout
      obtain ⟨k, before, rest, hsplit⟩ := d.exists_splitAt hout.1 hout.2
      obtain ⟨d', l, hnewline, -⟩ := hsplit.exists_newlineAndIndent_eq table
      rw [hnewline]
      refine ⟨iff_of_false ?_ (by omega), fun error herror => ?_⟩
      · rintro ⟨error, herror⟩
        cases herror
      · cases herror

end Document

end SexpEditing
