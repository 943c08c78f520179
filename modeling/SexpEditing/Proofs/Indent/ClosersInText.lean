import SexpEditing.Proofs.Indent.Aligned
import SexpEditing.Proofs.Indent.Applicable
import SexpEditing.Proofs.Sexp.Inverse
import SexpEditing.Proofs.Token.Coverage

/-!
# Closing delimiters that are no tokens

The closing delimiters that begin a line are found in the text of the line, the delimiter that they
match is found among the tokens. Both speak of the same delimiters unless those of the line lie in
a block comment, or behind the start of a string or a block comment that has no end. Then the
tokens know nothing of them, and the last significant token above the line is taken for the last of
them.

## Main definitions

* `Document.ClosersInText`: the closing delimiters that begin a line are no tokens
* `Document.MatchedAbove`: the last significant token above a line is a matched closing delimiter

## Main results

* `Document.closerColumnAt_eq_some_iff_of_not_inText`: where the closing delimiters are tokens, or
  part of a string, the column is that of the opener that the last of them matches
* `Document.ClosersInText.isSome_closerColumnAt_iff`: where they are not, the line above decides
* `Document.closerColumn_iff`: exactly when the column is that of a real match
* `Document.closerColumn_comment`: a document in which it is not
-/

namespace SexpEditing

open CodeUnit Token

/-- What begins a line of closing delimiters is plain. -/
theorem exists_plain_of_splitClosers {l rest : Text} {width : Nat}
    (h : splitClosers l = some (width, rest)) :
    ∃ front, l = front ++ rest ∧ front.length = width ∧ front.all isPlain := by
  obtain ⟨n, hl, hwidth⟩ := eq_of_splitClosers h
  refine ⟨l.takeWhile isSpace ++ List.replicate (n + 1) rightParen, ?_, ?_, ?_⟩
  · rw [List.append_assoc, ← hl]
  · rw [List.length_append, List.length_replicate, hwidth]
  · rw [List.all_append, all_isPlain_of_all_isSpace List.all_takeWhile, Bool.true_and,
      List.all_replicate]
    rfl

/-- A token of a text ends where the last one ends, or before. -/
theorem stop_le_tokensEnd {t : Text} {u : Token} (hu : u ∈ tokenize t) : u.stop ≤ tokensEnd t := by
  obtain ⟨last, hlast⟩ : ∃ last, (tokenize t).getLast? = some last :=
    ⟨_, List.getLast?_eq_some_getLast (List.ne_nil_of_mem hu)⟩
  rw [tokensEnd, hlast, Option.map_some, Option.getD_some]
  exact (ordered_tokenize t).laidOut.stop_le hlast hu

namespace Document

/-- The closing delimiters that begin a line are no tokens: a comment that begins above the line
goes on behind them, or the tokens of the text end above the line. -/
def ClosersInText (d : Document) (line : Int) : Prop :=
  ∃ text width rest start, d.lineText line = .ok text ∧
    splitClosers text = some (width, rest) ∧ d.lineStart line = .ok start ∧
    ((∃ t ∈ tokenize d.text, t.kind = .comment ∧ t.start < start ∧ start + width < t.stop) ∨
      tokensEnd d.text < start)

/-- The last significant token above a line is a closing delimiter, and an opening delimiter
matches it. -/
def MatchedAbove (d : Document) (line : Int) : Prop :=
  ∃ start, ∃ (closer : Token) (i j : Nat), d.lineStart line = .ok start ∧
    lastBefore (significantTokens d.text) start = some closer ∧ closer.kind = .closer ∧
    (TokenIndex.ofText d.text).significant[i]? = some closer ∧
    (TokenIndex.ofText d.text).partnerOf i = some j

variable {d : Document} {k : Nat}

/-! ### Lines that start inside a string or a comment -/

/-- A string or a comment that a line starts inside goes on behind the closing delimiters that begin
the line, or it has no end. -/
theorem StartsInside.exists_token_or (hin : d.StartsInside k) (hk : k < d.lines.length)
    {width : Nat} {rest : Text} (hs : splitClosers (d.lineOf k) = some (width, rest)) :
    (∃ t ∈ tokenize d.text, (t.kind = .string ∨ t.kind = .comment) ∧
        t.start < (Text.above d.lines k).length ∧
        ((Text.above d.lines k).length : Int) + width < t.stop) ∨
      tokensEnd d.text < (Text.above d.lines k).length := by
  obtain ⟨front, hline, rfl, hplain⟩ := exists_plain_of_splitClosers hs
  obtain ⟨after, htext⟩ := d.text_eq_of_lineOf hk
  rw [hline, List.append_assoc] at htext
  rw [tokensEnd_eq, htext]
  exact_mod_cast
    Unfinished.exists_token_or hin (Text.endsLine_above d.lines k) hplain (rest ++ after)

/-! ### The column by the last significant token -/

/-- A column that is found is that of the partner of the last significant token. -/
theorem exists_of_closerColumnAt {maxSteps width : Nat} {rest : Text} {column : Int}
    (hs : splitClosers (d.lineOf k) = some (width, rest))
    (h : d.closerColumnAt maxSteps k = some column) :
    ∃ i, ∃ closer : Token, countBefore (significantTokens d.text)
        ((Text.above d.lines k).length + width) = i + 1 ∧
      (significantTokens d.text)[i]? = some closer ∧ closer.kind = .closer ∧
      ∃ j, (TokenIndex.ofText d.text).partnerOf i = some j := by
  have hshows := Navigator.shows_ofDocument d maxSteps
  rw [closerColumnAt, hs] at h
  simp only [Option.bind_eq_bind, Option.bind_some] at h
  rw [hshows.backwardSexp_eq] at h
  obtain ⟨sexp, hsexp, hopener⟩ := Option.bind_eq_some_iff.mp h
  obtain ⟨u, hu, husexp⟩ := Option.bind_eq_some_iff.mp hsexp
  obtain ⟨opener, hsome, -⟩ := Option.bind_eq_some_iff.mp hopener
  obtain ⟨hle, hlast, hlt⟩ := Span.before_eq_some hu
  rw [List.length_map] at hlt
  rw [Span.sexp_eq_some (Nat.lt_of_le_of_lt hle hlt) hlt] at husexp
  cases husexp
  -- a unit with an opener is a list, so the last token is a closing delimiter
  obtain ⟨⟨o, c⟩, hdelimiters, -⟩ := Option.bind_eq_some_iff.mp hsome
  rw [← hlast] at hu
  rw [Span.before] at hu
  split at hu
  · cases hu
  · cases hu
  · next hkind =>
    obtain ⟨o, ho, -⟩ := Option.map_eq_some_iff.mp hu
    refine ⟨u.last, (significantTokens d.text)[u.last], hlast.symm, List.getElem?_eq_getElem hlt,
      by simpa [hlt] using hkind, o, ?_⟩
    rw [← ho]
    exact hshows.partnerOf_closer hkind
  · have hnone := congrArg Span.delimiters (Option.some.inj hu)
    rw [hdelimiters] at hnone
    cases hnone

/-- The last closing delimiter that begins a line is no token where a token goes on behind it, or
where the tokens end above the line. -/
theorem not_lastCloserMatches_of_token_or (hk : k < d.lines.length) {width : Nat} {rest : Text}
    (hs : splitClosers (d.lineOf k) = some (width, rest))
    (h : (∃ t ∈ tokenize d.text, t.start < (Text.above d.lines k).length ∧
        ((Text.above d.lines k).length : Int) + width < t.stop) ∨
      tokensEnd d.text < (Text.above d.lines k).length) (opener : Token) :
    ¬ d.LastCloserMatches k opener := by
  rintro ⟨text, width', rest', start, closer, i, j, htext, hs', hstart, hi, -, hplace, -, -⟩
  rw [d.lineText_eq hk, Except.ok.injEq] at htext
  rw [lineStart_of_lt d hk, Except.ok.injEq] at hstart
  subst htext hstart
  rw [hs] at hs'
  cases hs'
  rw [TokenIndex.getElem?_significant] at hi
  have hmem : closer ∈ tokenize d.text := (List.mem_filter.mp (List.mem_of_getElem? hi)).1
  have hordered := ordered_tokenize d.text
  have hlt := hordered.start_lt_stop closer hmem
  obtain ⟨n, -, hwidth⟩ := eq_of_splitClosers hs
  rcases h with ⟨t, ht, hbefore, hafter⟩ | hend
  · have := hordered.stop_le_of_start_lt ht hmem (by omega)
    omega
  · have := stop_le_tokensEnd hmem
    omega

/-- A string that goes on behind the closing delimiters is the last significant token. -/
theorem closerColumnAt_of_string {width : Nat} {rest : Text}
    (hs : splitClosers (d.lineOf k) = some (width, rest)) {t : Token} (ht : t ∈ tokenize d.text)
    (hkind : t.kind = .string) (hstart : t.start < (Text.above d.lines k).length)
    (hstop : ((Text.above d.lines k).length : Int) + width < t.stop) (maxSteps : Nat) :
    d.closerColumnAt maxSteps k = none := by
  rw [Option.eq_none_iff_forall_ne_some]
  intro column hcolumn
  obtain ⟨i, closer, hcount, hi, hcloser, -⟩ := exists_of_closerColumnAt hs hcolumn
  have hordered := ordered_significantTokens d.text
  have hmem : t ∈ significantTokens d.text := by
    refine List.mem_filter.mpr ⟨ht, ?_⟩
    simp [Token.isTrivia, hkind, TokenKind.isTrivia]
  obtain ⟨m, hm, rfl⟩ := List.getElem_of_mem hmem
  rw [hordered.countBefore_within hm (by omega) (by omega)] at hcount
  obtain rfl : m = i := Nat.succ.inj hcount
  rw [List.getElem?_eq_getElem hm] at hi
  cases hi
  rw [hkind] at hcloser
  cases hcloser

/-- **Where the closing delimiters are tokens**, or part of a string, the column is that of the
opener that the last of them matches. -/
theorem closerColumnAt_eq_some_iff_of_not_inText (maxSteps : Nat) (hk : k < d.lines.length)
    (h : ¬ d.ClosersInText k) {column : Int} :
    d.closerColumnAt maxSteps k = some column ↔
      ∃ opener, d.LastCloserMatches k opener ∧ column = d.columnAt opener.start := by
  by_cases hin : d.StartsInside k
  · -- neither a match nor a column
    cases hs : splitClosers (d.lineOf k) with
    | none =>
      rw [closerColumnAt, hs]
      refine iff_of_false (fun hnone => by cases hnone) ?_
      rintro ⟨opener, hlast, -⟩
      have := hlast.closerColumnAt_eq maxSteps
      rw [closerColumnAt, hs] at this
      cases this
    | some split =>
      obtain ⟨width, rest⟩ := split
      have hcloses := fun hor => h ⟨_, width, rest, _, d.lineText_eq hk, hs,
        lineStart_of_lt d hk, hor⟩
      rcases hin.exists_token_or hk hs with ⟨t, ht, hkind | hkind, hstart, hstop⟩ | hend
      · rw [closerColumnAt_of_string hs ht hkind hstart hstop maxSteps]
        refine iff_of_false (fun hnone => by cases hnone) ?_
        rintro ⟨opener, hlast, -⟩
        exact not_lastCloserMatches_of_token_or hk hs (.inl ⟨t, ht, hstart, hstop⟩) opener hlast
      · exact absurd (.inl ⟨t, ht, hkind, hstart, hstop⟩) hcloses
      · exact absurd (.inr hend) hcloses
  · exact closerColumnAt_eq_some_iff maxSteps hk hin

namespace ClosersInText

variable (h : d.ClosersInText k)
include h

theorem lt_length : k < d.lines.length := by
  obtain ⟨text, -, -, -, htext, -⟩ := h
  obtain ⟨n, hn, hlt⟩ := exists_line_of_lineText htext
  obtain rfl : k = n := Int.ofNat.inj hn
  exact hlt

/-- What stands in a comment, or behind the last token, by the text of the line. -/
theorem exists_splitClosers : ∃ width rest, splitClosers (d.lineOf k) = some (width, rest) ∧
    ((∃ t ∈ tokenize d.text, t.kind = .comment ∧ t.start < (Text.above d.lines k).length ∧
        ((Text.above d.lines k).length : Int) + width < t.stop) ∨
      tokensEnd d.text < (Text.above d.lines k).length) := by
  have hk := h.lt_length
  obtain ⟨text, width, rest, start, htext, hs, hstart, hor⟩ := h
  rw [d.lineText_eq hk, Except.ok.injEq] at htext
  rw [lineStart_of_lt d hk, Except.ok.injEq] at hstart
  subst htext hstart
  exact ⟨width, rest, hs, hor⟩

/-- None of the closing delimiters is a token, so the last one is not matched. -/
theorem not_lastCloserMatches (opener : Token) : ¬ d.LastCloserMatches k opener := by
  obtain ⟨width, rest, hs, hor⟩ := h.exists_splitClosers
  refine not_lastCloserMatches_of_token_or h.lt_length hs (hor.imp_left ?_) opener
  rintro ⟨t, ht, -, hstart, hstop⟩
  exact ⟨t, ht, hstart, hstop⟩

/-- No significant token starts in the line before the closing delimiters end. -/
theorem countBefore_eq {width : Nat} {rest : Text}
    (hs : splitClosers (d.lineOf k) = some (width, rest)) :
    countBefore (significantTokens d.text) ((Text.above d.lines k).length + width) =
      countBefore (significantTokens d.text) (Text.above d.lines k).length := by
  obtain ⟨width', rest', hs', hor⟩ := h.exists_splitClosers
  rw [hs] at hs'
  cases hs'
  apply List.countP_congr
  intro u hu
  obtain ⟨hmem, htrivia⟩ := List.mem_filter.mp hu
  have hlt := (ordered_tokenize d.text).start_lt_stop u hmem
  simp only [decide_eq_true_eq]
  refine ⟨fun hbefore => ?_, fun hbefore => by omega⟩
  rcases hor with ⟨t, ht, hkind, hstart, hstop⟩ | hend
  · -- the token is not the comment, so it starts before it or behind it
    by_contra hnot
    have := (ordered_tokenize d.text).stop_le_of_start_lt ht hmem (by omega)
    omega
  · have := stop_le_tokensEnd hmem
    omega

/-- **In a comment, or behind the last token**, a column is found exactly if the last significant
token above the line is a matched closing delimiter. -/
theorem isSome_closerColumnAt_iff (maxSteps : Nat) :
    (∃ column, d.closerColumnAt maxSteps k = some column) ↔ d.MatchedAbove k := by
  have hk := h.lt_length
  have hordered := ordered_significantTokens d.text
  obtain ⟨width, rest, hs, -⟩ := h.exists_splitClosers
  have hcount := h.countBefore_eq hs
  constructor
  · rintro ⟨column, hcolumn⟩
    obtain ⟨i, closer, hi, hcloser, hkind, j, hj⟩ := exists_of_closerColumnAt hs hcolumn
    obtain ⟨hlt, rfl⟩ := List.getElem?_eq_some_iff.mp hcloser
    refine ⟨_, _, i, j, lineStart_of_lt d hk, hordered.lastBefore_eq hlt (hcount ▸ hi), hkind, ?_,
      hj⟩
    rw [TokenIndex.getElem?_significant, hcloser]
  · rintro ⟨start, closer, i, j, hstart, hlast, hkind, hi, hj⟩
    rw [lineStart_of_lt d hk, Except.ok.injEq] at hstart
    subst hstart
    rw [TokenIndex.getElem?_significant] at hi
    obtain ⟨i', hi', hcloser⟩ := hordered.exists_of_lastBefore hlast
    obtain rfl : i' = i := hordered.index_unique hcloser hi
    rw [closerColumnAt_eq_of_countBefore maxSteps hs (hcount.trans hi') hi hkind, hj,
      Option.bind_some]
    -- the partner is the opening delimiter, so there is a token at its index
    obtain ⟨v, hv, -⟩ := TokenIndex.enforce_of_partnerOf d.text
      (by rw [TokenIndex.getElem?_significant, hi]) hj
    rw [TokenIndex.getElem?_significant] at hv
    exact ⟨_, by rw [hv, Option.map_some]⟩

end ClosersInText

/-- **The column of a line of closing delimiters** can be computed for every line. It is that of
the opener that the last closing delimiter matches, and there is none without a match, exactly
unless the closing delimiters are no tokens and the last significant token above the line is a
closing delimiter that is matched. -/
theorem closerColumn_iff (d : Document) (maxSteps : Nat) {line : Int} (h₀ : 0 ≤ line)
    (hlt : line < d.lineCount) :
    (∃ answer, (Navigator.ofDocument d maxSteps).closerColumn line = .ok answer) ∧
    ((∀ column, (Navigator.ofDocument d maxSteps).closerColumn line = .ok (some column) ↔
        ∃ opener, d.LastCloserMatches line opener ∧ column = d.columnAt opener.start) ↔
      ¬ (d.ClosersInText line ∧ d.MatchedAbove line)) := by
  obtain ⟨k, rfl⟩ := Int.eq_ofNat_of_zero_le h₀
  rw [lineCount_eq] at hlt
  have hk : k < d.lines.length := Int.ofNat_lt.mp hlt
  rw [closerColumn_eq d maxSteps hk]
  refine ⟨⟨_, rfl⟩, ?_⟩
  simp only [Except.ok.injEq]
  by_cases hin : d.ClosersInText k
  · -- nothing matches here, so the statement says that there is no column
    rw [not_and, ← hin.isSome_closerColumnAt_iff maxSteps]
    constructor
    · rintro hiff - ⟨column, hcolumn⟩
      obtain ⟨opener, hlast, -⟩ := (hiff column).mp hcolumn
      exact hin.not_lastCloserMatches opener hlast
    · intro hnone column
      refine iff_of_false (fun hcolumn => hnone hin ⟨column, hcolumn⟩) ?_
      rintro ⟨opener, hlast, -⟩
      exact hin.not_lastCloserMatches opener hlast
  · exact iff_of_true (fun column => closerColumnAt_eq_some_iff_of_not_inText maxSteps hk hin)
      fun hboth => hin hboth.1

/-- A list whose closing delimiter begins the second line. -/
theorem closerColumn_iff_list :
    let d := ofText [space, leftParen, 0x61, lineFeed, rightParen]
    (0 : Int) ≤ 1 ∧ 1 < d.lineCount ∧
      ∃ opener, d.LastCloserMatches 1 opener ∧ (1 : Int) = d.columnAt opener.start := by
  intro d
  have hcount : (1 : Int) < d.lineCount := by decide +kernel
  refine ⟨by decide, hcount, ?_⟩
  obtain ⟨-, hiff⟩ := closerColumn_iff d 100 (by decide : (0 : Int) ≤ 1) hcount
  refine (hiff.mpr ?_ 1).mp (by decide +kernel)
  -- the text has no comment, and its tokens reach to its end
  rintro ⟨⟨text, width, rest, start, -, -, hstart, hor⟩, -⟩
  have hone : d.lineStart 1 = .ok 4 := by decide +kernel
  rw [hone] at hstart
  cases hstart
  have hnone : ¬ ((∃ t ∈ tokenize d.text, t.kind = .comment) ∨ tokensEnd d.text < 4) := by
    decide +kernel
  exact hnone (hor.imp_left fun ⟨t, ht, hkind, _⟩ => ⟨t, ht, hkind⟩)

/-- A list, and behind it a block comment with a line that begins with a closing delimiter. The
column is that of the list above. -/
theorem closerColumn_comment :
    ¬ ∀ (d : Document) (maxSteps : Nat) (line : Int), 0 ≤ line → line < d.lineCount →
      ∀ column, (Navigator.ofDocument d maxSteps).closerColumn line = .ok (some column) ↔
        ∃ opener, d.LastCloserMatches line opener ∧ column = d.columnAt opener.start := by
  intro h
  let d := ofText [leftParen, 0x61, rightParen, slash, asterisk, lineFeed, rightParen, lineFeed,
    asterisk, slash]
  have hcolumn : (Navigator.ofDocument d 100).closerColumn 1 = .ok (some 0) := by decide +kernel
  obtain ⟨opener, ⟨text, width, rest, start, closer, i, j, htext, hs, hstart, hi, -, hplace, -⟩,
    -⟩ := (h d 100 1 (by decide) (by decide +kernel) 0).mp hcolumn
  -- the closing delimiter would be a token, at the start of the second line
  have hone : d.lineStart 1 = .ok 6 := by decide +kernel
  have hline : d.lineText 1 = .ok [rightParen] := by decide +kernel
  rw [hone] at hstart
  rw [hline] at htext
  cases hstart
  cases htext
  cases hs
  have hnone : ∀ t ∈ significantTokens d.text, t.start ≠ 6 + 1 - 1 := by decide +kernel
  rw [TokenIndex.getElem?_significant] at hi
  exact hnone closer (List.mem_of_getElem? hi) hplace

end Document

end SexpEditing
