import SexpEditing.Proofs.Indent.Idempotent

/-!
# Closing delimiters under their openers

Indenting a line of closing delimiters puts it under the opening delimiter that the last of them
matches, and with it the bare closer lines directly above. All columns are read off the text as it
was, and then the blanks of several lines are replaced at once. No edit moves an opening delimiter
under which another line is put: a line that gets an edit holds closing delimiters only. These are
tokens if the first of them is one, since the lines above it then start in no string or comment,
and no atom goes on with a closing delimiter.

## Main definitions

* `Document.IsBareCloser`: a line holds closing delimiters and nothing else
* `Document.FirstCloserIsToken`, `Document.LastCloserMatches`: the first of the closing delimiters
  that begin a line is a token, and the last of them is matched
* `Document.AlignedWith`: the lines that are put under their openers together with a line
* `Document.Closes`: a line of closing delimiters for which there is an opener

## Main results

* `Document.closerColumnAt_eq_some_iff`: the column of a line of closing delimiters is that of the
  opener that its last one matches
* `Document.Closes.alignedWith_iff`: the lines that get an edit
* `Document.Closes.exists_lastCloserMatches`: each of them stands under its opener afterwards
* `Document.indentLine_of_closers`: where a line of closing delimiters stands after it is indented
-/

namespace SexpEditing

open CodeUnit Token

/-! ### Closing delimiters that begin a line -/

/-- Closing delimiters begin a line behind white space. -/
theorem eq_of_splitClosers {l rest : Text} {width : Nat} (h : splitClosers l = some (width, rest)) :
    ∃ n, l = l.takeWhile isSpace ++ (List.replicate (n + 1) rightParen ++ rest) ∧
      width = (l.takeWhile isSpace).length + (n + 1) := by
  unfold splitClosers at h
  dsimp only at h
  split at h
  · cases h
  · next hne =>
    cases h
    generalize hclosers : (l.dropWhile isSpace).takeWhile (· == rightParen) = closers at hne ⊢
    -- what is taken is one closing delimiter after the other
    have hall : closers = List.replicate closers.length rightParen := by
      apply List.eq_replicate_of_mem
      intro c hc
      rw [← hclosers] at hc
      exact beq_iff_eq.mp (List.all_eq_true.mp List.all_takeWhile c hc)
    have hpos : 0 < closers.length := by
      apply List.length_pos_iff.mpr
      rintro rfl
      exact hne rfl
    refine ⟨closers.length - 1, ?_, by omega⟩
    rw [Nat.sub_add_cancel hpos, ← hall, ← hclosers, List.takeWhile_append_dropWhile,
      List.takeWhile_append_dropWhile]

/-- No atom goes on with closing delimiters, nor with white space in front of them. -/
theorem atomTail_of_closers {b : Text} (hb : b.all isSpace) (n : Nat) (t : Text) :
    (atomTail (b ++ (List.replicate (n + 1) rightParen ++ t))).1 = [] := by
  cases b with
  | nil =>
    rw [List.nil_append, List.replicate_succ, List.cons_append]
    apply Decidable.of_not_not
    intro hne
    -- only the units of atoms, and the two that escape and divide, can go on an atom
    obtain ⟨hc, -⟩ := of_atomTail_ne_nil hne
    rcases hc with hc | hc | hc <;> cases hc
  | cons c b =>
    rw [List.all_cons, Bool.and_eq_true] at hb
    exact congrArg Prod.fst (atomTail_of_isSpace hb.1 _)

theorem exists_of_isCloserLine {l : Text} (h : isCloserLine l) :
    ∃ width rest, splitClosers l = some (width, rest) := by
  rw [isCloserLine, Option.any_eq_true] at h
  obtain ⟨⟨width, rest⟩, hs, -⟩ := h
  exact ⟨width, rest, hs⟩

theorem TokenIndex.getElem?_significant (t : Text) (i : Nat) :
    (ofText t).significant[i]? = (significantTokens t)[i]? :=
  List.getElem?_toArray

namespace Document

/-- A line holds closing delimiters and nothing else. -/
def IsBareCloser (d : Document) (line : Int) : Prop :=
  ∃ text, d.lineText line = .ok text ∧ isBareCloserLine text = true

/-- The first of the closing delimiters that begin a line is a token. -/
def FirstCloserIsToken (d : Document) (line : Int) : Prop :=
  ∃ text start, ∃ closer : Token, d.lineText line = .ok text ∧ d.lineStart line = .ok start ∧
    closer ∈ tokenize d.text ∧ closer.kind = .closer ∧
      closer.start = start + (text.takeWhile isSpace).length

/-- The last of the closing delimiters that begin a line is a token, and an opening delimiter
matches it. -/
def LastCloserMatches (d : Document) (line : Int) (opener : Token) : Prop :=
  ∃ text width rest start, ∃ (closer : Token) (i j : Nat), d.lineText line = .ok text ∧
    splitClosers text = some (width, rest) ∧ d.lineStart line = .ok start ∧
    (TokenIndex.ofText d.text).significant[i]? = some closer ∧ closer.kind = .closer ∧
    closer.start = start + width - 1 ∧
    (TokenIndex.ofText d.text).partnerOf i = some j ∧
    (TokenIndex.ofText d.text).significant[j]? = some opener

/-- A line is put under its opener together with a line further down: it is that line, or one of at
most `steps` bare closer lines directly above, and there is no line between them whose last closing
delimiter is unmatched. -/
def AlignedWith (d : Document) (steps : Nat) (line i : Int) : Prop :=
  i ≤ line ∧ line ≤ i + steps ∧
    ∀ j, i ≤ j → j < line → d.IsBareCloser j ∧ ∃ opener, d.LastCloserMatches j opener

variable {d d' : Document}

/-! ### Lines that begin with a closing token -/

theorem text_eq_of_lineOf (d : Document) {k : Nat} (hk : k < d.lines.length) :
    ∃ after, d.text = Text.above d.lines k ++ (d.lineOf k ++ after) := by
  obtain ⟨r, hr, -⟩ := exists_dropFinalReturn_append d.lines[k]
  refine ⟨r ++ Text.below d.lines k, ?_⟩
  rw [lineOf, List.getElem?_eq_getElem hk, Option.getD_some,
    ← List.append_assoc (dropFinalReturn _), ← hr, ← List.append_assoc, ← text_eq_around d hk]

/-- A line whose first unit behind the white space starts a token starts in no string or comment. -/
theorem not_startsInside_of_start {k : Nat} (hk : k < d.lines.length) {t : Token}
    (ht : t ∈ tokenize d.text) (hstart : t.start =
      (Text.above d.lines k).length + ((d.lineOf k).takeWhile isSpace).length) :
    ¬ d.StartsInside k := by
  intro hin
  obtain ⟨after, htext⟩ := d.text_eq_of_lineOf hk
  rw [← List.takeWhile_append_dropWhile (p := isSpace) (l := d.lineOf k),
    List.append_assoc] at htext
  -- the unit would be inside, so another token would hold it, or none
  have hspace : ((d.lineOf k).takeWhile isSpace).all isSpace := List.all_takeWhile
  have hinside := (insideText_iff (Text.endsLine_above d.lines k) hspace
    (x := (d.lineOf k).dropWhile isSpace ++ after)).mpr hin
  rw [← htext, ← hstart, TokenIndex.insideText, Bool.or_eq_true, scan_backward_any] at hinside
  have hordered := ordered_tokenize d.text
  rcases hinside with ⟨u, hu, hkinds, hbefore, hafter⟩ | hcovered
  · exact Int.not_lt.mpr (hordered.stop_le_of_start_lt hu ht hbefore) hafter
  · rw [decide_eq_true_eq] at hcovered
    obtain ⟨last, hlast⟩ : ∃ last, (tokenize d.text).getLast? = some last :=
      ⟨_, List.getLast?_eq_some_getLast (List.ne_nil_of_mem ht)⟩
    have hstop := hordered.laidOut.stop_le hlast ht
    have hlt := hordered.start_lt_stop t ht
    have hcover : ((TokenIndex.ofText d.text).tokens.back?.map Token.stop).getD 0 = last.stop := by
      simp [TokenIndex.ofText, TokenIndex.ofTokens, hlast]
    omega

/-- **A run of closing delimiters** that begins a line outside strings and comments is a run of
tokens. -/
theorem exists_lastCloser {k : Nat} (hk : k < d.lines.length) (hin : ¬ d.StartsInside k)
    {width : Nat} {rest : Text} (hs : splitClosers (d.lineOf k) = some (width, rest)) :
    ∃ (i : Nat) (closer : Token), (significantTokens d.text)[i]? = some closer ∧
      closer.kind = .closer ∧ closer.start = (Text.above d.lines k).length + width - 1 := by
  obtain ⟨n, hline, hwidth⟩ := eq_of_splitClosers hs
  obtain ⟨after, htext⟩ := d.text_eq_of_lineOf hk
  have hspace : ((d.lineOf k).takeWhile isSpace).all isSpace := List.all_takeWhile
  generalize (d.lineOf k).takeWhile isSpace = b at hline hwidth hspace
  rw [hline, List.append_assoc, List.append_assoc] at htext
  have hsplit := significantTokens_append_of_endsLine (Text.endsLine_above d.lines k) hin hspace
    (x := List.replicate (n + 1) rightParen ++ (rest ++ after)) fun _ =>
      atomTail_of_closers (b := []) rfl n _
  rw [← htext, significantFrom_replicate] at hsplit
  -- the last of the run comes right behind the tokens above and the rest of the run
  refine ⟨(significantTokens (Text.above d.lines k)).length + n, ⟨⟨.closer, [rightParen]⟩,
    ⟨(Text.above d.lines k).length + b.length + n,
      (Text.above d.lines k).length + b.length + n + 1⟩⟩, ?_, rfl, ?_⟩
  · rw [hsplit, List.getElem?_append_right (Nat.le_add_right _ n), Nat.add_sub_cancel_left,
      List.getElem?_append_left (by simp), List.getElem?_map,
      List.getElem?_range (Nat.lt_succ_self n), Option.map_some]
  · simp only [Token.start]
    omega

/-- The opener that decides the column is the partner of the last significant token that starts
before the end of the closing delimiters. -/
theorem closerColumnAt_eq_of_countBefore (maxSteps : Nat) {k i width : Nat} {rest : Text}
    {closer : Token} (hs : splitClosers (d.lineOf k) = some (width, rest))
    (hcount : countBefore (significantTokens d.text) ((Text.above d.lines k).length + width) =
      i + 1)
    (hi : (significantTokens d.text)[i]? = some closer) (hkind : closer.kind = .closer) :
    d.closerColumnAt maxSteps k =
      (((TokenIndex.ofText d.text).partnerOf i).bind fun j => (significantTokens d.text)[j]?).map
        fun opener => d.columnAt opener.start := by
  have hshows := Navigator.shows_ofDocument d maxSteps
  have hlt := (List.getElem?_eq_some_iff.mp hi).1
  have hcloser : ((significantTokens d.text).map (·.kind))[i]? = some .closer := by
    rw [List.getElem?_map, hi, Option.map_some, hkind]
  have hpartner : (TokenIndex.ofText d.text).partnerOf i =
      (Matching.unclosedAt ((significantTokens d.text).map (·.kind)) i).head? :=
    hshows.partnerOf_closer hcloser
  rw [closerColumnAt, hs, hpartner]
  simp only [Option.bind_eq_bind, Option.bind_some]
  rw [hshows.backwardSexp_eq, hcount, Span.before, hcloser]
  cases hunclosed : (Matching.unclosedAt ((significantTokens d.text).map (·.kind)) i).head? with
  | none => rfl
  | some o =>
    have ho : o < i := Matching.Matches.lt ⟨hcloser, hunclosed⟩
    have hfirst : Span.firstMark ((significantTokens d.text).map (·.kind)) o ≤ o :=
      Span.firstMark_le o
    simp only [Option.map_some, Option.bind_some]
    rw [Span.sexp_eq_some (Nat.lt_of_le_of_lt hfirst (Nat.lt_trans ho hlt)) hlt]
    simp only [Option.bind_some]
    cases (significantTokens d.text)[o]? <;> rfl

/-- The opener that decides the column is the partner of the last closing delimiter. -/
theorem closerColumnAt_eq_of_closer (maxSteps : Nat) {k i width : Nat} {rest : Text}
    {closer : Token} (hs : splitClosers (d.lineOf k) = some (width, rest))
    (hi : (significantTokens d.text)[i]? = some closer) (hkind : closer.kind = .closer)
    (hstart : closer.start = (Text.above d.lines k).length + width - 1) :
    d.closerColumnAt maxSteps k =
      (((TokenIndex.ofText d.text).partnerOf i).bind fun j => (significantTokens d.text)[j]?).map
        fun opener => d.columnAt opener.start := by
  refine closerColumnAt_eq_of_countBefore maxSteps hs ?_ hi hkind
  -- the tokens before the place where the closing delimiters end are those up to the last of them
  have hordered := ordered_significantTokens d.text
  obtain ⟨hlt, rfl⟩ := List.getElem?_eq_some_iff.mp hi
  have hstop := hordered.start_lt hlt
  exact hordered.countBefore_within hlt (by omega) (by omega)

theorem LastCloserMatches.closerColumnAt_eq {k : Nat} {opener : Token}
    (h : d.LastCloserMatches k opener) (maxSteps : Nat) :
    d.closerColumnAt maxSteps k = some (d.columnAt opener.start) := by
  obtain ⟨text, width, rest, start, closer, i, j, htext, hs, hstart, hi, hkind, hplace, hj,
    hopener⟩ := h
  obtain ⟨n, hn, hk⟩ := exists_line_of_lineText htext
  obtain rfl : k = n := Int.ofNat.inj hn
  rw [d.lineText_eq hk, Except.ok.injEq] at htext
  rw [lineStart_of_lt d hk, Except.ok.injEq] at hstart
  subst htext hstart
  rw [TokenIndex.getElem?_significant] at hi hopener
  rw [closerColumnAt_eq_of_closer maxSteps hs hi hkind hplace, hj, Option.bind_some, hopener,
    Option.map_some]

/-- **The column of a line of closing delimiters** is that of the opener that its last one
matches. -/
theorem closerColumnAt_eq_some_iff (maxSteps : Nat) {k : Nat} (hk : k < d.lines.length)
    (hin : ¬ d.StartsInside k) {column : Int} :
    d.closerColumnAt maxSteps k = some column ↔
      ∃ opener, d.LastCloserMatches k opener ∧ column = d.columnAt opener.start := by
  constructor
  · intro h
    cases hs : splitClosers (d.lineOf k) with
    | none =>
      rw [closerColumnAt, hs] at h
      cases h
    | some split =>
      obtain ⟨width, rest⟩ := split
      obtain ⟨i, closer, hi, hkind, hstart⟩ := exists_lastCloser hk hin hs
      rw [closerColumnAt_eq_of_closer maxSteps hs hi hkind hstart] at h
      obtain ⟨opener, ho, rfl⟩ := Option.map_eq_some_iff.mp h
      obtain ⟨j, hj, hopener⟩ := Option.bind_eq_some_iff.mp ho
      rw [← TokenIndex.getElem?_significant] at hi hopener
      exact ⟨opener, ⟨_, width, rest, _, closer, i, j, d.lineText_eq hk, hs, lineStart_of_lt d hk,
        hi, hkind, hstart, hj, hopener⟩, rfl⟩
  · rintro ⟨opener, hmatches, rfl⟩
    exact hmatches.closerColumnAt_eq maxSteps

/-! ### Lines of closing delimiters are not joined -/

/-- No atom goes on with a line of closing delimiters. -/
theorem not_joined_of_isCloserLine {k : Nat} (h : isCloserLine (d.lineOf k)) : ¬ d.Joined k := by
  intro hjoined
  have hk := hjoined.lt_length
  -- an atom is pending perhaps, but it cannot take in what comes first in the line
  apply ((joined_iff hk).mp hjoined).2
  rw [isCloserLine_lineOf d hk] at h
  obtain ⟨width, rest, hs⟩ := exists_of_isCloserLine h
  obtain ⟨n, hbody, -⟩ := eq_of_splitClosers hs
  obtain ⟨r, hr, -⟩ := exists_dropFinalReturn_append d.lines[k].body
  rw [hr, hbody, List.append_assoc, List.append_assoc]
  exact atomTail_of_closers List.all_takeWhile n _

theorem Reindents.isCloserLine_lineOf (h : d.Reindents d') {k : Nat} (hk : k < d.lines.length) :
    isCloserLine (d'.lineOf k) = isCloserLine (d.lineOf k) := by
  have hk' := h.lt_length hk
  rw [Document.isCloserLine_lineOf d hk, Document.isCloserLine_lineOf d' hk', h.body_eq hk hk']

/-! ### The edits for a line of closing delimiters -/

/-- A line of closing delimiters outside strings and comments, whose last one is matched. -/
structure Closes (d : Document) (maxSteps k : Nat) (column : Int) : Prop where
  lt_length : k < d.lines.length
  outside : ¬ d.StartsInside k
  isCloserLine : isCloserLine (d.lineOf k) = true
  column_eq : d.closerColumnAt maxSteps k = some column

namespace Closes

variable {table : IndentTable} {k : Nat} {column : Int} (h : d.Closes table.maxSteps k column)
include h

theorem editsFor_eq : d.editsFor table k =
    ⟨k, column⟩ :: d.alignAbove table.maxSteps table.maxDedentSteps k := by
  rw [editsFor, if_neg h.outside, alignment, if_pos h.isCloserLine, h.column_eq]

/-- Each of the edits is for such a line, and gives it its column. -/
theorem of_mem_editsFor {edit : IndentEdit} (hedit : edit ∈ d.editsFor table k) :
    ∃ i : Nat, edit.line = i ∧ i ≤ k ∧ d.Closes table.maxSteps i edit.column := by
  rw [h.editsFor_eq, List.mem_cons] at hedit
  rcases hedit with rfl | hedit
  · exact ⟨k, rfl, Nat.le_refl k, h⟩
  · obtain ⟨i, hi⟩ := d.mem_alignAbove_iff.mp hedit
    have hik := Nat.le_of_lt hi.lt
    have hlt := Nat.le_of_lt h.lt_length
    exact ⟨i, hi.line_eq, hik, Nat.lt_trans hi.lt h.lt_length,
      d.not_startsInside_of_bare hik hlt h.outside hi.bare,
      isCloserLine_of_isBareCloserLine (hi.bare i (Nat.le_refl i) hi.lt), hi.column_eq⟩

/-- A line further up that is put under its opener gets an edit. -/
theorem exists_edit_of_alignedWith {i : Int} (hi : d.AlignedWith table.maxDedentSteps k i) :
    ∃ edit ∈ d.editsFor table k, edit.line = i := by
  obtain ⟨hle, hsteps, hall⟩ := hi
  rw [h.editsFor_eq]
  by_cases hik : i = k
  · exact ⟨_, List.mem_cons_self, hik.symm⟩
  · -- a line above: it is the first of those between, so it is a bare closer line and matched
    have hlt : i < k := by omega
    obtain ⟨⟨text, htext, -⟩, opener, hopener⟩ := hall i (Int.le_refl i) hlt
    obtain ⟨n, rfl, hn⟩ := exists_line_of_lineText htext
    refine ⟨⟨n, d.columnAt opener.start⟩, List.mem_cons_of_mem _ ?_, rfl⟩
    refine d.mem_alignAbove_iff.mpr ⟨n, rfl, by omega, by omega,
      hopener.closerColumnAt_eq table.maxSteps, fun j hj hjk => ?_, fun j hj hjk => ?_⟩
    · obtain ⟨⟨l, hl, hbare⟩, -⟩ := hall j (by omega) (by omega)
      rw [d.lineText_eq (Nat.lt_trans hjk h.lt_length), Except.ok.injEq] at hl
      rwa [hl]
    · obtain ⟨-, o, ho⟩ := hall j (by omega) (by omega)
      rw [ho.closerColumnAt_eq table.maxSteps, Option.isSome_some]

/-- **The lines that get an edit** are those that are put under their openers with the line. -/
theorem alignedWith_iff {i : Int} : d.AlignedWith table.maxDedentSteps k i ↔
    ∃ edit ∈ d.editsFor table k, edit.line = i := by
  refine ⟨h.exists_edit_of_alignedWith, ?_⟩
  rintro ⟨edit, hedit, rfl⟩
  rw [h.editsFor_eq] at hedit
  rcases List.mem_cons.mp hedit with rfl | hedit
  · -- the line itself, with none between
    refine ⟨Int.le_refl _, Int.le_add_of_nonneg_right (Int.natCast_nonneg _), ?_⟩
    intro j hj hjk
    exact absurd hjk (Int.not_lt.mpr hj)
  · obtain ⟨i, hi⟩ := d.mem_alignAbove_iff.mp hedit
    have hlt := hi.lt
    have hle := hi.le
    rw [hi.line_eq]
    refine ⟨by omega, by omega, fun j hj hjk => ?_⟩
    obtain ⟨j, rfl⟩ : ∃ n : Nat, j = n := ⟨j.toNat, by omega⟩
    have hij : i ≤ j := by omega
    have hjk : j < k := by omega
    have hjlt := Nat.lt_trans hjk h.lt_length
    -- the line is outside like all those between, so its column is that of an opener
    have hbare := hi.bare j hij hjk
    have hin := d.not_startsInside_of_bare (Nat.le_of_lt hjk) (Nat.le_of_lt h.lt_length) h.outside
      fun m hm => hi.bare m (Nat.le_trans hij hm)
    obtain ⟨c, hc⟩ := Option.isSome_iff_exists.mp (hi.matched j hij hjk)
    obtain ⟨o, ho, -⟩ := (closerColumnAt_eq_some_iff table.maxSteps hjlt hin).mp hc
    exact ⟨⟨_, d.lineText_eq hjlt, hbare⟩, o, ho⟩

/-- However the lines are indented, no atom goes on with one that gets an edit. -/
theorem not_joined (hd : d.Reindents d') {edit : IndentEdit} (hedit : edit ∈ d.editsFor table k)
    {i : Nat} (hline : edit.line = i) : ¬ d'.Joined i := by
  obtain ⟨j, hj, -, hcloses⟩ := h.of_mem_editsFor hedit
  obtain rfl : i = j := Int.ofNat.inj (hline.symm.trans hj)
  apply not_joined_of_isCloserLine
  rw [hd.isCloserLine_lineOf hcloses.lt_length]
  exact hcloses.isCloserLine

/-- **Each line that gets an edit stands under its opener** once the edits are made: none of them
moved an opening delimiter. -/
theorem exists_lastCloserMatches {edit : IndentEdit} (hedit : edit ∈ d.editsFor table k) :
    let d' := (d.applyIndentEdits (d.editsFor table k)).1
    ∃ opener indentation, d'.LastCloserMatches edit.line opener ∧
      edit.column = d'.columnAt opener.start ∧
      d'.lineIndentation edit.line = .ok indentation ∧ (indentation.width : Int) = edit.column := by
  have hkeeps := keepsAbove_applyIndentEdits table h.lt_length fun x hx e he i =>
    h.not_joined hx he
  obtain ⟨i, hi', hline, hblanks⟩ := obeys_applyIndentEdits table h.lt_length hedit
  generalize (d.applyIndentEdits (d.editsFor table k)).1 = d' at hkeeps hi' hblanks ⊢
  obtain ⟨j, hj, hjk, hcloses⟩ := h.of_mem_editsFor hedit
  obtain rfl : i = j := Int.ofNat.inj (hline.symm.trans hj)
  have hi := hcloses.lt_length
  -- the line has the same column in the new text, so this is the column of its opener there
  have hcolumn : d'.closerColumnAt table.maxSteps i = some edit.column := by
    rw [(hkeeps.mono hjk).closerColumnAt_eq table.maxSteps hi]
    exact hcloses.column_eq
  have hin' : ¬ d'.StartsInside i := by
    rw [hkeeps.reindents.startsInside_iff (Nat.le_of_lt hi)]
    exact hcloses.outside
  obtain ⟨opener, hopener, hplace⟩ :=
    (closerColumnAt_eq_some_iff table.maxSteps hi' hin').mp hcolumn
  show ∃ opener indentation, d'.LastCloserMatches edit.line opener ∧ _
  rw [hline]
  refine ⟨opener, _, hopener, hplace, lineIndentation_of_lt d' hi', ?_⟩
  have hnonneg := d'.columnAt_nonneg opener.start
  show (d'.lines[i].blanks.length : Int) = _
  rw [hblanks, List.length_replicate]
  omega

/-- A line that gets no edit stays as it was. -/
theorem getElem?_of_not_alignedWith {i : Nat} (hi : ¬ d.AlignedWith table.maxDedentSteps k i) :
    (d.applyIndentEdits (d.editsFor table k)).1.lines[i]? = d.lines[i]? := by
  obtain ⟨-, -, hframe⟩ := applyIndentEdits_keeps table h.lt_length fun x hx e he i =>
    h.not_joined hx he
  apply hframe i
  intro edit hedit hline
  exact hi (h.alignedWith_iff.mpr ⟨edit, hedit, hline⟩)

/-- Indenting the line makes the edits, and answers the column. -/
theorem indentLine_eq {offset : Int} (hline : d.lineAt offset = k) :
    d.indentLine offset table =
      ((d.applyIndentEdits (d.editsFor table k)).1, .ok column) := by
  obtain ⟨d', n, happly, -⟩ := applyIndentEdits_reindents table h.lt_length
  rw [indentLine, d.computeIndent_eq table h.lt_length hline, happly]
  rw [h.editsFor_eq] at happly ⊢
  simp only [happly]
  rfl

end Closes

/-- A line of closing delimiters the first of which is a token and the last of which is matched. -/
theorem LastCloserMatches.closes {k : Nat} {text : Text} {opener : Token}
    (h : d.LastCloserMatches k opener) (hfirst : d.FirstCloserIsToken k)
    (htext : d.lineText k = .ok text) (hclosers : isCloserLine text = true) (maxSteps : Nat) :
    d.Closes maxSteps k (d.columnAt opener.start) := by
  obtain ⟨n, hn, hk⟩ := exists_line_of_lineText htext
  obtain rfl : k = n := Int.ofNat.inj hn
  rw [d.lineText_eq hk, Except.ok.injEq] at htext
  subst htext
  refine ⟨hk, ?_, hclosers, h.closerColumnAt_eq maxSteps⟩
  obtain ⟨l, start, closer, hl, hstart, hmem, -, hplace⟩ := hfirst
  rw [d.lineText_eq hk, Except.ok.injEq] at hl
  rw [lineStart_of_lt d hk, Except.ok.injEq] at hstart
  subst hl hstart
  exact not_startsInside_of_start hk hmem hplace

/-- **Closing delimiters are put under their openers.** After a line of closing delimiters is
indented, it is as wide as the column of the opener that its last closing delimiter matches, and so
is each bare closer line directly above it, up to the first whose last closing delimiter is
unmatched, or as many as the table says. The answer is the new width of the line, and all other
lines are what they were. -/
theorem indentLine_of_closers (d : Document) (table : IndentTable) (offset : Int) {text : Text}
    {opener : Token} (htext : d.lineText (d.lineAt offset) = .ok text)
    (hclosers : isCloserLine text = true) (hfirst : d.FirstCloserIsToken (d.lineAt offset))
    (hlast : d.LastCloserMatches (d.lineAt offset) opener) :
    let d' := (d.indentLine offset table).1
    (∀ i, d.AlignedWith table.maxDedentSteps (d.lineAt offset) i →
      ∃ o indentation, d'.LastCloserMatches i o ∧ d'.lineIndentation i = .ok indentation ∧
        indentation.width = d'.columnAt o.start) ∧
    (∃ indentation, d'.lineIndentation (d.lineAt offset) = .ok indentation ∧
      (d.indentLine offset table).2 = .ok indentation.width) ∧
    d'.lines.length = d.lines.length ∧
    ∀ i : Nat, ¬ d.AlignedWith table.maxDedentSteps (d.lineAt offset) i →
      d'.lines[i]? = d.lines[i]? := by
  have hreindents := d.indentLine_reindents offset table
  obtain ⟨k, hk, hline, -, -⟩ := d.exists_lineAt offset
  rw [hline] at htext hfirst hlast ⊢
  have h := hlast.closes hfirst htext hclosers table.maxSteps
  have hmem : (⟨k, d.columnAt opener.start⟩ : IndentEdit) ∈ d.editsFor table k := by
    rw [h.editsFor_eq]
    exact List.mem_cons_self
  refine ⟨?_, ?_, hreindents.length_eq, ?_⟩
  -- what is left is about the edits, and which lines they are for
  all_goals rw [h.indentLine_eq hline]
  · intro i hi
    obtain ⟨edit, hedit, rfl⟩ := h.alignedWith_iff.mp hi
    obtain ⟨o, indentation, ho, hplace, hindentation, hwidth⟩ := h.exists_lastCloserMatches hedit
    exact ⟨o, indentation, ho, hindentation, hwidth.trans hplace⟩
  · -- the answer is the column of the first edit
    obtain ⟨o, indentation, -, -, hindentation, hwidth⟩ := h.exists_lastCloserMatches hmem
    refine ⟨indentation, hindentation, ?_⟩
    rw [hwidth]
  · intro i hi
    exact h.getElem?_of_not_alignedWith hi

/-- A list in a list, and each of the two closing delimiters on a line of its own: the upper line is
put under its opener together with the lower one, which is to be indented. -/
theorem indentLine_of_closers_nested :
    let d := ofText [leftParen, 0x61, space, leftParen, 0x62, lineFeed, rightParen, lineFeed, space,
      rightParen]
    let table : IndentTable := ⟨.empty, [], [], [], [], [], [atSign], 6, 100, 100⟩
    d.lineText (d.lineAt 9) = .ok [space, rightParen] ∧ isCloserLine [space, rightParen] = true ∧
      d.FirstCloserIsToken (d.lineAt 9) ∧
      d.LastCloserMatches (d.lineAt 9) ⟨⟨.opener, [leftParen]⟩, ⟨0, 1⟩⟩ ∧
      d.AlignedWith table.maxDedentSteps (d.lineAt 9) 1 ∧
      ∃ o indentation, (d.indentLine 9 table).1.LastCloserMatches 1 o ∧
        (d.indentLine 9 table).1.lineIndentation 1 = .ok indentation ∧
        indentation.width = (d.indentLine 9 table).1.columnAt o.start := by
  intro d table
  have hline : d.lineAt 9 = 2 := by decide +kernel
  have htext : d.lineText (d.lineAt 9) = .ok [space, rightParen] := by
    rw [hline]
    rfl
  have hstart : d.lineStart (d.lineAt 9) = .ok 8 := by
    rw [hline]
    rfl
  have hfirst : d.FirstCloserIsToken (d.lineAt 9) :=
    ⟨[space, rightParen], 8, ⟨⟨.closer, [rightParen]⟩, ⟨9, 10⟩⟩, htext, hstart, by decide +kernel,
      rfl, rfl⟩
  have hlast : d.LastCloserMatches (d.lineAt 9) ⟨⟨.opener, [leftParen]⟩, ⟨0, 1⟩⟩ :=
    ⟨[space, rightParen], 2, [], 8, ⟨⟨.closer, [rightParen]⟩, ⟨9, 10⟩⟩, 5, 0, htext, rfl, hstart,
      by decide +kernel, rfl, rfl, by decide +kernel, by decide +kernel⟩
  have haligned : d.AlignedWith table.maxDedentSteps (d.lineAt 9) 1 := by
    rw [hline]
    refine ⟨by decide, by decide, fun j hj hjk => ?_⟩
    obtain rfl : j = 1 := by omega
    exact ⟨⟨[rightParen], by rfl, rfl⟩, ⟨⟨.opener, [leftParen]⟩, ⟨3, 4⟩⟩, [rightParen], 1, [], 6,
      ⟨⟨.closer, [rightParen]⟩, ⟨6, 7⟩⟩, 4, 2, by rfl, rfl, by rfl, by decide +kernel, rfl, rfl,
      by decide +kernel, by decide +kernel⟩
  refine ⟨htext, rfl, hfirst, hlast, haligned, ?_⟩
  exact (indentLine_of_closers d table 9 htext rfl hfirst hlast).1 1 haligned

end Document

end SexpEditing
