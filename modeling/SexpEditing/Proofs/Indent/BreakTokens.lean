import SexpEditing.Proofs.Indent.Breaking

/-!
# Breaking lines and the tokens of a program

A line is meant to be broken between tokens, where the break changes nothing but blanks. The blanks
before the break are dropped as they stand, though, and the last of them can be escaped: then it is
the end of an atom. The line feed, which is escaped now, takes its place, and perhaps the atom goes
on with the new line.

## Main definitions

* `Document.EscapesBreak`: an atom before an offset takes in a line break that is put there

## Main results

* `Document.SplitAt.significant_eq`, `Document.SplitAt.significant_ne`: what keeps the significant
  tokens, and what changes them
* `Document.newlineAndIndent_tokens_iff`: exactly when the significant tokens stay
* `Document.newlineAndIndent_tokens_escaped`: a document in which they do not
-/

namespace SexpEditing

open CodeUnit

/-- A text that escapes the unit that follows it ends with a backslash. -/
theorem getLast?_of_escapesNext {t : Text} (h : escapesNext t = true) :
    t.getLast? = some backslash := by
  fun_induction escapesNext t with
  | case1 => cases h
  | case2 => rfl
  | case3 c rest ih =>
    have hrest := ih h
    rw [List.getLast?_cons, List.getLast?_cons, hrest]
    rfl
  | case4 c rest hone hpair ih =>
    have hrest := ih h
    rw [List.getLast?_cons, hrest]
    rfl

/-- An atom that takes in a line feed behind what is left of it is another one: the line feed stands
where a blank stood, or where it ended. -/
theorem Lexeme.significant_cons_ne {l : Lexeme} (hl : l.kind = .atom) (y : Text)
    (ls ms : List Lexeme) :
    significant (⟨.atom, l.text.trimmed ++ lineFeed :: y⟩ :: ms) ≠ significant (l :: ls) := by
  intro heq
  unfold significant at heq
  rw [List.filter_cons_of_pos rfl, List.filter_cons_of_pos (by rw [hl]; rfl)] at heq
  obtain ⟨hhead, -⟩ := List.cons.inj heq
  have htext := (congrArg Lexeme.text hhead).trans (Text.trimmed_append_trail l.text).symm
  have htrail : lineFeed :: y = l.text.trail := List.append_cancel_left htext
  have hblank := Text.all_isIndentation_trail l.text
  rw [← htrail, List.all_cons, Bool.and_eq_true] at hblank
  cases hblank.1

namespace Document

/-- An atom ends before an offset, with nothing but blanks between them, and what is left of it
without the blanks at its end escapes the unit that follows. -/
def EscapesBreak (d : Document) (offset : Int) : Prop :=
  ∃ t ∈ tokenize d.text, t.kind = .atom ∧ t.stop ≤ offset ∧
    (d.readRange t.stop offset).all isIndentation = true ∧ escapesNext t.text.trimmed = true

theorem text_broken (d : Document) (k : Nat) (before rest : Text) :
    (d.broken k before rest).text = Text.trimmed (Text.above d.lines k ++ before) ++
      lineFeed :: (rest ++ Text.below d.lines k) := by
  rw [broken, text_atVersion, (Text.endsLine_above d.lines k).trimmed_append]
  simp only [List.append_assoc, List.singleton_append]

namespace SplitAt

variable {d d' : Document} {offset : Int} {k : Nat} {before rest : Text}
  (h : d.SplitAt offset k before rest)
include h

/-- The text up to the break. -/
theorem above_broken_succ : Text.above (d.broken k before rest).lines (k + 1) =
    Text.trimmed (Text.above d.lines k ++ before) ++ [lineFeed] := by
  have hlt : k < (d.broken k before rest).lines.length := by
    rw [h.length_broken]
    exact Nat.lt_succ_of_lt h.lt_length
  have hline := h.getElem?_broken
  rw [List.getElem?_eq_getElem hlt, Option.some.injEq] at hline
  rw [Text.above_succ hlt, h.above_broken, hline, (Text.endsLine_above d.lines k).trimmed_append]

/-- The offset cuts the text if it lies in no token but white space. -/
theorem exists_cut (hend : offset ≤ tokensEnd d.text)
    (hcut : ∀ t ∈ tokenize d.text, t.start < offset → offset < t.stop →
      t.kind ≠ .atom ∧ t.kind ≠ .string ∧ t.kind ≠ .mark ∧ t.kind ≠ .comment) :
    ∃ ls w, Cut d.text ls w (rest ++ Text.below d.lines k) ∧
      (ls.flatMap fun l => l.text) ++ w = Text.above d.lines k ++ before := by
  obtain ⟨n, hn⟩ : ∃ n : Nat, offset = n := ⟨_, h.offset_eq⟩
  rw [hn] at hend hcut
  obtain ⟨ls, w, x, hls, hlength⟩ := exists_cut_of_tokens hend hcut
  have htext := hls.text_eq
  rw [h.text_eq, ← List.append_assoc] at htext
  have hoffset := h.offset_eq
  obtain ⟨hfront, rfl⟩ := List.append_inj htext (by
    rw [List.length_append, List.length_append]
    omega)
  exact ⟨ls, w, hls, hfront⟩

section Indented

variable (hreindents : (d.broken k before rest).Reindents d')
  (hframe : ∀ j, d'.lines[j]? ≠ (d.broken k before rest).lines[j]? →
    j ≤ k + 1 ∧ (d.broken k before rest).BareRun j (k + 1))
include hreindents hframe

/-- **The significant tokens stay** if the atom before the break, if there is one, does not take in
the line feed. -/
theorem significant_eq {ls : List Lexeme} {w : Text}
    (hcut : Cut d.text ls w (rest ++ Text.below d.lines k))
    (hfront : (ls.flatMap fun l => l.text) ++ w = Text.above d.lines k ++ before)
    (hsteady : w.all isIndentation = true →
      ∀ l ∈ ls.getLast?, l.kind = .atom → escapesNext l.text.trimmed = false) :
    Lexeme.significant (lexemes d'.text) = Lexeme.significant (lexemes d.text) := by
  obtain ⟨ms, v, hsig, hv, hreads⟩ := hcut.exists_reads hsteady
  rw [hfront] at hreads
  -- up to the break nothing but white space and comments is read otherwise, and nothing behind it
  have hbroken : Lexeme.significant (lexemes (d.broken k before rest).text) =
      Lexeme.significant (lexemes d.text) := by
    have hagree := agree_of_all_isSpace (w := v ++ [lineFeed])
      (by rw [List.all_append, hv]; rfl) hcut.all_isSpace (rest ++ Text.below d.lines k)
    rw [List.append_assoc, List.singleton_append] at hagree
    rw [text_broken, (hreads _).lexemes_eq, hcut.lexemes_eq, significant_append,
      significant_append, hsig, hagree.significant_eq]
  rw [← hbroken]
  apply hreindents.significant_eq
  intro line hjoined
  by_cases hsame : d'.lines[line]? = (d.broken k before rest).lines[line]?
  · unfold Flush
    rw [hsame]
  · exfalso
    obtain ⟨hle, hrun⟩ := hframe line hsame
    rcases Nat.lt_or_eq_of_le hle with hlt | rfl
    · -- a closer line further up
      refine not_joined_of_isCloserLine ?_ hjoined
      exact isCloserLine_of_isBareCloserLine (hrun line (Nat.le_refl line) hlt)
    · -- the new line, and no atom goes on with it
      have hatom := ((joined_iff hjoined.lt_length).mp hjoined).1
      rw [h.above_broken_succ, (hreads []).pending_eq] at hatom
      have hspace : (v ++ [lineFeed]).all isSpace := by
        rw [List.all_append, hv]
        rfl
      rw [pending_of_all_isSpace hspace] at hatom
      exact hatom.not_all_isSpace hspace

omit hreindents in
/-- No closer line is aligned with the new line if a backslash stands before the break. -/
theorem above_eq_of_backslash (hlast : before.trimmed.getLast? = some backslash) :
    Text.above d'.lines (k + 1) = Text.above (d.broken k before rest).lines (k + 1) := by
  have hlt : k < (d.broken k before rest).lines.length := by
    rw [h.length_broken]
    exact Nat.lt_succ_of_lt h.lt_length
  unfold Text.above
  congr 1
  apply List.ext_getElem?
  intro j
  by_cases hj : j < k + 1
  · rw [List.getElem?_take_of_lt hj, List.getElem?_take_of_lt hj]
    by_contra hne
    -- the upper line would be a closer line
    have hbare := (hframe j hne).2 k (Nat.lt_succ_iff.mp hj) (Nat.lt_succ_self k)
    have hplain := all_isPlain_of_lineOf _ hlt hbare
    have hline := h.getElem?_broken
    rw [List.getElem?_eq_getElem hlt, Option.some.injEq] at hline
    rw [hline, List.all_eq_true] at hplain
    have hbackslash := hplain backslash (List.mem_of_getLast? hlast)
    cases hbackslash
  · rw [List.getElem?_take_eq_none (Nat.le_of_not_lt hj),
      List.getElem?_take_eq_none (Nat.le_of_not_lt hj)]

/-- **The significant tokens change** if the atom before the break takes in the line feed. -/
theorem significant_ne {ls : List Lexeme} {l : Lexeme} {w : Text}
    (hcut : Cut d.text (ls ++ [l]) w (rest ++ Text.below d.lines k))
    (hfront : ((ls ++ [l]).flatMap fun l => l.text) ++ w = Text.above d.lines k ++ before)
    (hw : w.all isIndentation = true) (hl : l.kind = .atom)
    (hescapes : escapesNext l.text.trimmed = true) :
    Lexeme.significant (lexemes d'.text) ≠ Lexeme.significant (lexemes d.text) := by
  obtain ⟨htrimmed, hreads⟩ := hcut.reads_of_escapesNext hw hl hescapes
  have hform : l.Formed := hcut.formed (List.mem_append_right _ (List.mem_singleton_self l))
  have hatom := hform.atomSoFar hl hescapes
  rw [hfront, (Text.endsLine_above d.lines k).trimmed_append] at htrimmed
  -- the backslash is the last unit of the upper line
  have hlast : before.trimmed.getLast? = some backslash := by
    have hgetLast := congrArg List.getLast? htrimmed
    rw [List.getLast?_append, List.getLast?_append, getLast?_of_escapesNext hescapes,
      Option.some_or] at hgetLast
    rcases Option.or_eq_some_iff.mp hgetLast with hb | ⟨-, ha⟩
    · exact hb
    · rcases Text.endsLine_above d.lines k with hnil | hfeed
      · rw [hnil] at ha
        cases ha
      · rw [hfeed] at ha
        cases ha
  have hk : k + 1 < d'.lines.length := by
    apply hreindents.lt_length
    rw [h.length_broken]
    exact Nat.succ_lt_succ h.lt_length
  obtain ⟨y, htext⟩ : ∃ y, d'.text =
      (ls.flatMap fun l => l.text) ++ (l.text.trimmed ++ lineFeed :: y) := by
    refine ⟨d'.lines[k + 1] ++ Text.below d'.lines (k + 1), ?_⟩
    rw [text_eq_around d' hk, h.above_eq_of_backslash hframe hlast, h.above_broken_succ,
      (Text.endsLine_above d.lines k).trimmed_append, htrimmed]
    simp only [List.append_assoc, List.cons_append, List.nil_append]
  have hnext := hatom.nextLexeme_append y
  rw [List.append_assoc, List.append_assoc, List.singleton_append] at hnext
  rw [htext, (hreads y).lexemes_eq, lexemes_of_some hnext, hcut.lexemes_eq, List.append_assoc,
    significant_append, significant_append]
  intro heq
  -- the lists part at the atom
  exact Lexeme.significant_cons_ne hl _ _ _ (List.append_cancel_left heq)

end Indented

end SplitAt

instance (d : Document) (offset : Int) : Decidable (d.EscapesBreak offset) :=
  inferInstanceAs (Decidable (∃ t ∈ tokenize d.text, t.kind = .atom ∧ t.stop ≤ offset ∧
    (d.readRange t.stop offset).all isIndentation = true ∧ escapesNext t.text.trimmed = true))

/-- **Breaking a line between tokens keeps the significant tokens** exactly if no atom before the
break takes in the line feed. The offset lies in no atom, string, mark or comment, and not behind
the start of a string or a block comment that has no end. -/
theorem newlineAndIndent_tokens_iff (d : Document) (table : IndentTable) {offset : Int}
    (h₀ : 0 ≤ offset) (hend : offset ≤ tokensEnd d.text)
    (hcut : ∀ t ∈ tokenize d.text, t.start < offset → offset < t.stop →
      t.kind ≠ .atom ∧ t.kind ≠ .string ∧ t.kind ≠ .mark ∧ t.kind ≠ .comment) :
    (significantTokens (d.newlineAndIndent offset table).1.text).map Token.toLexeme =
        (significantTokens d.text).map Token.toLexeme ↔
      ¬ d.EscapesBreak offset := by
  have hlength : offset ≤ d.length := by
    refine Int.le_trans hend ?_
    obtain ⟨after, htext, -⟩ := Token.exists_flatMap_lexemes_append d.text
    have hlen := congrArg List.length htext
    rw [List.length_append] at hlen
    rw [tokensEnd_eq, ← length_text]
    omega
  obtain ⟨k, before, rest, hsplit⟩ := d.exists_splitAt h₀ hlength
  obtain ⟨ls, w, hls, hfront⟩ := hsplit.exists_cut hend hcut
  obtain ⟨d', l, hnewline, -, hreindents, hframe⟩ := hsplit.exists_newlineAndIndent_eq table
  rw [hnewline, map_toLexeme_significantTokens, map_toLexeme_significantTokens]
  -- the atom in question is the last lexeme before the break
  have hatom : d.EscapesBreak offset ↔ ∃ l ∈ ls.getLast?, l.kind = .atom ∧
      w.all isIndentation = true ∧ escapesNext l.text.trimmed = true := by
    have hn := congrArg List.length hfront
    rw [List.length_append, List.length_append] at hn
    rw [← hls.exists_atom_iff hn, EscapesBreak, hsplit.offset_eq]
    simp only [readRange_eq_slice, Int.natCast_add]
  rw [hatom]
  constructor
  · rintro heq ⟨l, hl, hkind, hw, hescapes⟩
    obtain ⟨init, rfl⟩ := List.getLast?_eq_some_iff.mp hl
    exact hsplit.significant_ne hreindents hframe hls hfront hw hkind hescapes heq
  · intro hnone
    apply hsplit.significant_eq hreindents hframe hls hfront
    intro hw l hl hkind
    by_contra hescapes
    rw [Bool.not_eq_false] at hescapes
    exact hnone ⟨l, hl, hkind, hw, hescapes⟩

/-- Behind a comment: the blank at its end is dropped, and no token changes. -/
theorem newlineAndIndent_tokens_iff_comment :
    let d := ofText [leftParen, 0x61, space, semicolon, 0x63, space, lineFeed, 0x62, rightParen]
    let table : IndentTable := ⟨.empty, [], [], [], [], [], [atSign], 6, 100, 100⟩
    (0 : Int) ≤ 6 ∧ 6 ≤ tokensEnd d.text ∧
      (∀ t ∈ tokenize d.text, t.start < 6 → 6 < t.stop →
        t.kind ≠ .atom ∧ t.kind ≠ .string ∧ t.kind ≠ .mark ∧ t.kind ≠ .comment) ∧
      (significantTokens (d.newlineAndIndent 6 table).1.text).map Token.toLexeme =
        (significantTokens d.text).map Token.toLexeme := by
  intro d table
  have hend : 6 ≤ tokensEnd d.text := by decide +kernel
  have hcut : ∀ t ∈ tokenize d.text, t.start < 6 → 6 < t.stop →
      t.kind ≠ .atom ∧ t.kind ≠ .string ∧ t.kind ≠ .mark ∧ t.kind ≠ .comment := by decide +kernel
  have hsteady : ¬ d.EscapesBreak 6 := by decide +kernel
  refine ⟨by decide, hend, hcut, ?_⟩
  exact (newlineAndIndent_tokens_iff d table (by decide) hend hcut).mpr hsteady

/-- A list of one atom, which ends with an escaped blank. A break before the closing delimiter drops
the blank, and the atom ends with a line feed. -/
theorem newlineAndIndent_tokens_escaped :
    ¬ ∀ (d : Document) (table : IndentTable) (offset : Int), 0 ≤ offset →
      offset ≤ tokensEnd d.text →
      (∀ t ∈ tokenize d.text, t.start < offset → offset < t.stop →
        t.kind ≠ .atom ∧ t.kind ≠ .string ∧ t.kind ≠ .mark ∧ t.kind ≠ .comment) →
      (significantTokens (d.newlineAndIndent offset table).1.text).map Token.toLexeme =
        (significantTokens d.text).map Token.toLexeme := by
  intro h
  have h := h (ofText [leftParen, 0x61, backslash, space, rightParen])
    ⟨.empty, [], [], [], [], [], [atSign], 6, 100, 100⟩ 4 (by decide) (by decide +kernel)
    (by decide +kernel)
  revert h
  decide +kernel

end Document

end SexpEditing
