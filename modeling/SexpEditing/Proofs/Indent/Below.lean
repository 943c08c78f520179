import SexpEditing.Proofs.Indent.Stable

/-!
# Text below a line

The edits that indent a line are computed from an index of the whole text. All the same they depend
on nothing that comes after the first token of the line: an opening delimiter that is closed further
down encloses the line as one that nothing closes, the walk over siblings ends before the line, and
the head of a list around the line stands above its first token.

## Main definitions

* `Document.Continues`: a document goes on where another one ends

## Main results

* `Document.Continues.alignment_eq`: a line of closing delimiters gets the same edits
* `Document.Continues.ruleColumn_eq`: a line that begins with a token gets the same column
* `Document.computeIndent_append`: text below a line does not change how the line is indented
-/

namespace SexpEditing

open CodeUnit Token

/-! ### The first tokens -/

namespace Matching

theorem unclosedAt_append {kinds : List TokenKind} (more : List TokenKind) {n : Nat}
    (hn : n ≤ kinds.length) : unclosedAt (kinds ++ more) n = unclosedAt kinds n := by
  induction n with
  | zero => rfl
  | succ n ih =>
    rw [unclosedAt, unclosedAt, List.getElem?_append_left hn, ih (Nat.le_of_succ_le hn)]

end Matching

namespace Span

open Matching

variable {kinds : List TokenKind} (more : List TokenKind)

theorem firstMark_append_right {i : Nat} (hi : i ≤ kinds.length) :
    firstMark (kinds ++ more) i = firstMark kinds i := by
  induction i with
  | zero => rfl
  | succ i ih =>
    rw [firstMark, firstMark, List.getElem?_append_left hi, ih (Nat.le_of_succ_le hi)]

/-- Going backward from one of the first tokens, the others are not seen. -/
theorem before_append {n : Nat} (hn : n ≤ kinds.length) :
    before (kinds ++ more) n = before kinds n := by
  cases n with
  | zero => rfl
  | succ last =>
    rw [before, before, List.getElem?_append_left hn, unclosedAt_append more (Nat.le_of_succ_le hn),
      firstMark_append_right more (Nat.le_of_succ_le hn)]
    -- the opener of a list comes before its end
    have hlist : ((unclosedAt kinds last).head?.map fun o =>
          Span.mk (firstMark (kinds ++ more) o) last (some (o, last))) =
        (unclosedAt kinds last).head?.map fun o =>
          Span.mk (firstMark kinds o) last (some (o, last)) := by
      apply Option.map_congr
      intro o ho
      have hlt := lt_of_mem_unclosedAt (List.mem_of_head? ho)
      rw [firstMark_append_right more (by omega)]
    rw [hlist]

theorem enclosing_append (steps : Nat) {n : Nat} (hn : n ≤ kinds.length) :
    enclosing (kinds ++ more) steps n = enclosing kinds steps n := by
  induction steps generalizing n with
  | zero => rfl
  | succ steps ih =>
    rw [enclosing, enclosing, before_append more hn]
    cases hb : before kinds n with
    | some u =>
      obtain ⟨hle, hlast, -⟩ := before_eq_some hb
      exact ih (by omega)
    | none =>
      cases n with
      | zero => simp
      | succ n => rw [Nat.add_sub_cancel, List.getElem?_append_left hn]

/-- Whether a token ends a child can be told from the token after it. -/
theorem endsChild_append (o : Nat) {i : Nat} (hi : i + 1 < kinds.length) :
    endsChild (kinds ++ more) o i = endsChild kinds o i := by
  rw [endsChild, endsChild, unclosedAt_append more (Nat.le_of_lt hi), List.getElem?_append_left hi,
    List.getElem?_append_left (Nat.lt_of_succ_lt hi)]

/-- The children that end before one of the first tokens are counted without the others. -/
theorem countAfter_append (steps : Nat) {limit o : Nat} (hlimit : limit < kinds.length)
    (ho : kinds[o]? = some .opener) :
    countAfter (kinds ++ more) limit steps (o + 1) = countAfter kinds limit steps (o + 1) := by
  have hlt : o < kinds.length := (List.getElem?_eq_some_iff.mp ho).1
  have hd : (unclosedAt kinds (o + 1)).head? = some o := by
    rw [unclosedAt_succ_of_opener ho, List.head?_cons]
  rw [countAfter_eq_min hd, countAfter_eq_min (by rwa [unclosedAt_append more hlt])]
  congr 1
  apply List.countP_congr
  intro i hi
  rw [List.mem_range'_1] at hi
  rw [endsChild_append more o (by omega)]

end Span

/-! ### The first lines -/

theorem Text.intercalate_append (ls : List Text) {ms : List Text} (hms : ms ≠ []) :
    [lineFeed].intercalate (ls ++ ms) =
      (ls.flatMap fun l => l ++ [lineFeed]) ++ [lineFeed].intercalate ms := by
  induction ls with
  | nil => rfl
  | cons l ls ih =>
    rw [List.cons_append, List.intercalate_cons_of_ne_nil (by simp [hms]), ih]
    simp

/-- If a token starts at a cursor or after it, fewer than all tokens start before it. -/
theorem Token.countBefore_lt_length {ts : List Token} {cursor : Int}
    (h : ∃ t ∈ ts, cursor ≤ t.start) : countBefore ts cursor < ts.length := by
  obtain ⟨t, ht, hle⟩ := h
  refine Nat.lt_of_le_of_ne List.countP_le_length fun hall => ?_
  have := List.countP_eq_length.mp hall t ht
  simp only [decide_eq_true_eq] at this
  omega

namespace Document

/-- Where a text ends with a line feed, its last line is empty. -/
theorem text_eq_above {d : Document} (h : EndsLine d.text) :
    d.text = Text.above d.lines (d.lines.length - 1) := by
  have hpos := List.length_pos_iff.mpr d.lines_ne_nil
  have hlast : d.lines.length - 1 < d.lines.length := by omega
  have htext := d.text_eq_around hlast
  have hbelow : Text.below d.lines (d.lines.length - 1) = [] := by
    rw [Text.below, List.drop_of_length_le (by omega), List.flatMap_nil]
  rw [hbelow, List.append_nil] at htext
  -- the last line would end the text, but it holds no line feed
  have hnil : d.lines[d.lines.length - 1] = [] := by
    rcases List.eq_nil_or_concat d.lines[d.lines.length - 1] with hnil | ⟨init, c, hline⟩
    · exact hnil
    · have hfeed := h.getLast?_eq (by rw [htext, hline]; simp)
      rw [htext, hline, List.concat_eq_append, ← List.append_assoc, List.getLast?_concat,
        Option.some.injEq] at hfeed
      have hmem : lineFeed ∈ d.lines[d.lines.length - 1] := by
        rw [hline, hfeed]
        simp
      exact absurd hmem (not_mem_of_mem_lines (List.getElem_mem hlast))
  rwa [hnil, List.append_nil] at htext

theorem bodyStart_add_le (d : Document) {k : Nat} (hk : k < d.lines.length) :
    d.bodyStart k + d.lines[k].body.length ≤ d.text.length := by
  have hend := d.bodyStart_add_length hk
  have hle := d.length_above_add_le hk
  omega

/-- A document goes on where another one ends, in a line of its own and outside strings, comments
and atoms. -/
structure Continues (d d' : Document) : Prop where
  exists_append : ∃ s, d'.text = d.text ++ s
  endsLine : EndsLine d.text
  pending_isSpace : (pending d.text).all isSpace

namespace Continues

variable {d d' : Document} (h : d.Continues d')
include h

theorem exists_lines_eq : ∃ more, d'.lines = d.lines.dropLast ++ more := by
  obtain ⟨s, hs⟩ := h.exists_append
  refine ⟨s.splitOn lineFeed, ?_⟩
  have hne : s.splitOn lineFeed ≠ [] := List.splitOn_ne_nil _ _
  have htext : d'.text = [lineFeed].intercalate (d.lines.dropLast ++ s.splitOn lineFeed) := by
    rw [Text.intercalate_append _ hne, List.intercalate_splitOn, hs, text_eq_above h.endsLine,
      Text.above, List.dropLast_eq_take]
  have hfree : ∀ l ∈ d.lines.dropLast ++ s.splitOn lineFeed, lineFeed ∉ l := by
    intro l hl
    rcases List.mem_append.mp hl with hl | hl
    · exact not_mem_of_mem_lines (List.mem_of_mem_take (List.dropLast_eq_take ▸ hl))
    · exact not_mem_of_mem_splitOn hl
  rw [lines, htext]
  exact List.splitOn_intercalate lineFeed hfree (by simp [hne])

/-- Every line but the last one stays. -/
theorem lines_getElem? {k : Nat} (hk : k + 1 < d.lines.length) :
    d'.lines[k]? = d.lines[k]? := by
  obtain ⟨more, hmore⟩ := h.exists_lines_eq
  rw [hmore, List.getElem?_append_left (by rw [List.length_dropLast]; omega),
    List.getElem?_dropLast, if_pos (by omega)]

theorem lt_length {k : Nat} (hk : k + 1 < d.lines.length) : k < d'.lines.length := by
  have hline := h.lines_getElem? hk
  rw [List.getElem?_eq_getElem (Nat.lt_of_succ_lt hk)] at hline
  exact (List.getElem?_eq_some_iff.mp hline).1

theorem above_eq {k : Nat} (hk : k < d.lines.length) :
    Text.above d'.lines k = Text.above d.lines k := by
  obtain ⟨more, hmore⟩ := h.exists_lines_eq
  have hle : k ≤ d.lines.dropLast.length := by
    rw [List.length_dropLast]
    omega
  rw [Text.above, Text.above, hmore, List.take_append_of_le_length hle, List.dropLast_eq_take,
    List.take_take, Nat.min_eq_left (by omega)]

/-- An offset of the text keeps its line and its column. -/
theorem place_eq {n : Nat} (hn : n < d.text.length) :
    d'.lineAt n = d.lineAt n ∧ d'.columnAt n = d.columnAt n := by
  obtain ⟨k, hk, -, hlo, hhi⟩ := d.exists_lineAt n
  rw [clamp_of_le d (Nat.le_of_lt hn)] at hlo hhi
  -- the offset stands before the last line, which starts where the text ends
  have hk₁ : k + 1 < d.lines.length := by
    refine Nat.lt_of_not_le fun hlast => ?_
    obtain rfl : k = d.lines.length - 1 := by omega
    have := congrArg List.length (text_eq_above h.endsLine)
    omega
  have hk' := h.lt_length hk₁
  have habove := h.above_eq hk
  have hline : d'.lines[k] = d.lines[k] := by
    have := h.lines_getElem? hk₁
    rwa [List.getElem?_eq_getElem hk', List.getElem?_eq_getElem hk, Option.some.injEq] at this
  have hlo' : (Text.above d'.lines k).length ≤ n := by rwa [habove]
  have hhi' : n ≤ (Text.above d'.lines k).length + d'.lines[k].length := by rwa [habove, hline]
  rw [d.lineAt_of_le hk hlo hhi, d'.lineAt_of_le hk' hlo' hhi', d.columnAt_of_le hk hlo hhi,
    d'.columnAt_of_le hk' hlo' hhi', habove]
  exact ⟨rfl, rfl⟩

theorem bodyStart_eq {k : Nat} (hk : k + 1 < d.lines.length) : d'.bodyStart k = d.bodyStart k := by
  rw [bodyStart, bodyStart, h.above_eq (Nat.lt_of_succ_lt hk), h.lines_getElem? hk]

theorem lineOf_eq {k : Nat} (hk : k + 1 < d.lines.length) : d'.lineOf k = d.lineOf k := by
  rw [lineOf, lineOf, h.lines_getElem? hk]

theorem startsInside_iff {k : Nat} (hk : k < d.lines.length) :
    d'.StartsInside k ↔ d.StartsInside k := by
  rw [StartsInside, StartsInside, h.above_eq hk]

/-! ### The first tokens -/

/-- The significant tokens stay, and all others come after the text. -/
theorem exists_significantTokens_eq :
    ∃ more, significantTokens d'.text = significantTokens d.text ++ more ∧
      ∀ t ∈ more, (d.text.length : Int) ≤ t.start := by
  obtain ⟨s, hs⟩ := h.exists_append
  have hsplit := significantTokens_append h.pending_isSpace (b := []) rfl s
  rw [List.nil_append, ← hs] at hsplit
  refine ⟨_, hsplit, fun t ht => ?_⟩
  have := le_start_of_mem_significantFrom ht
  simpa using this

theorem exists_kinds_eq : ∃ more, (significantTokens d'.text).map (·.kind) =
    (significantTokens d.text).map (·.kind) ++ more := by
  obtain ⟨more, hmore, -⟩ := h.exists_significantTokens_eq
  exact ⟨more.map (·.kind), by rw [hmore, List.map_append]⟩

theorem getElem?_eq {i : Nat} (hi : i < (significantTokens d.text).length) :
    (significantTokens d'.text)[i]? = (significantTokens d.text)[i]? := by
  obtain ⟨more, hmore, -⟩ := h.exists_significantTokens_eq
  rw [hmore, List.getElem?_append_left hi]

/-- At an offset of the text only its own tokens are counted. -/
theorem count_eq {offset : Int} (ho : offset ≤ d.text.length) :
    countBefore (significantTokens d'.text) offset =
        countBefore (significantTokens d.text) offset ∧
      countEnded (significantTokens d'.text) offset =
        countEnded (significantTokens d.text) offset := by
  obtain ⟨more, hmore, hstart⟩ := h.exists_significantTokens_eq
  have hordered := ordered_significantTokens d'.text
  rw [hmore] at hordered
  rw [hmore, countBefore, countBefore, countEnded, countEnded, List.countP_append,
    List.countP_append, Nat.add_eq_left, Nat.add_eq_left, List.countP_eq_zero,
    List.countP_eq_zero]
  constructor
  · intro t ht
    have := hstart t ht
    simp only [decide_eq_true_eq]
    omega
  · intro t ht
    have := hstart t ht
    have := hordered.of_append_right.start_lt_stop t ht
    simp only [decide_eq_true_eq]
    omega

/-- An opening delimiter keeps its column. -/
theorem columnAt_eq {t : Token} (ht : t ∈ significantTokens d.text) :
    d'.lineAt t.start = d.lineAt t.start ∧ d'.columnAt t.start = d.columnAt t.start := by
  obtain ⟨n, hn, hle⟩ := exists_start_of_mem_significantTokens ht
  have hstop := stop_lt_of_mem_significantTokens h.endsLine h.pending_isSpace ht
  have hstart := (ordered_significantTokens d.text).start_lt_stop t ht
  rw [hn]
  exact h.place_eq (by omega)

/-! ### Lines of closing delimiters -/

theorem closerColumnAt_eq (maxSteps : Nat) {k : Nat} (hk : k + 1 < d.lines.length) :
    d'.closerColumnAt maxSteps k = d.closerColumnAt maxSteps k := by
  have hlt := Nat.lt_of_succ_lt hk
  have hlt' := h.lt_length hk
  have hline := h.lines_getElem? hk
  rw [List.getElem?_eq_getElem hlt', List.getElem?_eq_getElem hlt, Option.some.injEq] at hline
  rw [d.closerColumnAt_eq_map maxSteps hlt, d'.closerColumnAt_eq_map maxSteps hlt', hline,
    h.bodyStart_eq hk]
  cases hs : splitClosers (dropFinalReturn d.lines[k].body) with
  | none => rfl
  | some split =>
    -- the closing delimiters end before the text does
    obtain ⟨front, hfront, hwidth, -⟩ := of_splitClosers hs
    obtain ⟨r, hr, -⟩ := exists_dropFinalReturn_append d.lines[k].body
    have hlength := congrArg List.length hr
    rw [hfront] at hlength
    simp only [List.length_append] at hlength
    have hle := d.bodyStart_add_le hlt
    have hoffset : (d.bodyStart k + split.1 : Int) ≤ d.text.length := by omega
    have hbefore := (h.count_eq hoffset).1
    obtain ⟨more, hkinds⟩ := h.exists_kinds_eq
    have hn : countBefore (significantTokens d.text) (d.bodyStart k + split.1) ≤
        (significantTokens d.text).length := List.countP_le_length
    simp only [Option.bind_some]
    rw [hbefore, hkinds, Span.before_append more (by simpa using hn)]
    cases hu : Span.before ((significantTokens d.text).map (·.kind))
        (countBefore (significantTokens d.text) (d.bodyStart k + split.1)) with
    | none => rfl
    | some u =>
      rw [Option.bind_some, Option.bind_some]
      cases hd : u.delimiters with
      | none => rfl
      | some delimiters =>
        have ho := (Span.opener_of_before hu hd).2
        have ho : delimiters.1 < (significantTokens d.text).length := by omega
        rw [Option.bind_some, Option.bind_some, h.getElem?_eq ho, List.getElem?_eq_getElem ho,
          Option.map_some, Option.map_some, (h.columnAt_eq (List.getElem_mem ho)).2]

theorem alignAbove_eq (maxSteps steps : Nat) {k : Nat} (hk : k < d.lines.length) :
    d'.alignAbove maxSteps steps k = d.alignAbove maxSteps steps k := by
  induction steps generalizing k with
  | zero => cases k <;> rfl
  | succ steps ih =>
    cases k with
    | zero => rfl
    | succ k =>
      rw [alignAbove, alignAbove, h.lineOf_eq hk, h.closerColumnAt_eq maxSteps hk,
        ih (Nat.lt_of_succ_lt hk)]

/-- **A line of closing delimiters** gets the same edits. -/
theorem alignment_eq (maxSteps steps : Nat) {k : Nat} (hk : k + 1 < d.lines.length) :
    d'.alignment maxSteps steps k = d.alignment maxSteps steps k := by
  rw [alignment, alignment, h.lineOf_eq hk, h.closerColumnAt_eq maxSteps hk,
    h.alignAbove_eq maxSteps steps (Nat.lt_of_succ_lt hk)]

/-! ### The column that the rules give -/

section Contexts

variable {cursor : Int} (hcursor : ∃ t ∈ significantTokens d.text, cursor ≤ t.start)
include hcursor

theorem cursor_le : cursor ≤ d.text.length := by
  obtain ⟨t, ht, hle⟩ := hcursor
  have hstop := stop_lt_of_mem_significantTokens h.endsLine h.pending_isSpace ht
  have hstart := (ordered_significantTokens d.text).start_lt_stop t ht
  omega

/-- A list that is opened before the cursor looks the same: its head and its elements before the
cursor come before the token that follows the cursor. -/
theorem contextIn_eq (maxSteps : Nat) {i : Nat} (hi : i < (significantTokens d.text).length)
    (hi' : i < (significantTokens d'.text).length)
    (hkind : (significantTokens d.text)[i].kind = .opener)
    (hlt : i < countBefore (significantTokens d.text) cursor) :
    (Navigator.ofDocument d' maxSteps).contextIn (significantTokens d'.text)[i] cursor =
      (Navigator.ofDocument d maxSteps).contextIn (significantTokens d.text)[i] cursor := by
  have hs := Navigator.shows_ofDocument d maxSteps
  have hs' := Navigator.shows_ofDocument d' maxSteps
  have hn := countBefore_lt_length hcursor
  have hle := h.cursor_le hcursor
  have hopener : (significantTokens d'.text)[i] = (significantTokens d.text)[i] := by
    have := h.getElem?_eq hi
    rwa [List.getElem?_eq_getElem hi', List.getElem?_eq_getElem hi, Option.some.injEq] at this
  obtain ⟨hline, hcolumn⟩ := h.columnAt_eq (List.getElem_mem hi)
  have hhead : ((Navigator.ofDocument d' maxSteps).contextIn (significantTokens d'.text)[i]
      cursor).head = ((Navigator.ofDocument d maxSteps).contextIn (significantTokens d.text)[i]
      cursor).head := by
    rw [hs'.head_contextIn hi', hs.head_contextIn hi, h.getElem?_eq (by omega)]
  -- tokens that have ended before the cursor start before it
  have hended : countEnded (significantTokens d.text) (cursor - 1) ≤
      countBefore (significantTokens d.text) cursor := by
    apply List.countP_mono_left
    intro t ht hstop
    have := hs.ordered.start_lt_stop t ht
    simp only [decide_eq_true_eq] at hstop ⊢
    omega
  have hindex : (Navigator.ofDocument d' maxSteps).countSiblings cursor maxSteps
        (significantTokens d'.text)[i].stop =
      (Navigator.ofDocument d maxSteps).countSiblings cursor maxSteps
        (significantTokens d.text)[i].stop := by
    obtain ⟨more, hkinds⟩ := h.exists_kinds_eq
    rw [hs'.countSiblings_eq, hs.countSiblings_eq, hs'.ordered.countEnded_stop,
      hs.ordered.countEnded_stop, (h.count_eq (by omega)).2, hkinds]
    apply Span.countAfter_append
    · rw [List.length_map]
      omega
    · simp [hi, hkind]
  rw [← hopener] at hline hcolumn
  rw [Navigator.contextIn, Navigator.contextIn, Context.mk.injEq]
  refine ⟨hhead, ?_, congrArg Nat.cast hindex, ?_, ?_⟩
  · rw [← hopener]
    exact hcolumn
  · rw [← hopener]
    exact hline
  · rw [hopener]

/-- The walks out from an offset before the cursor end at the same opening delimiter, which comes
before the cursor too, or both find none. -/
theorem upList_cases (maxSteps : Nat) {offset : Int} (ho : offset ≤ cursor) :
    (Navigator.ofDocument d maxSteps).upList offset 1 = none ∧
        (Navigator.ofDocument d' maxSteps).upList offset 1 = none ∨
      ∃ opener, (Navigator.ofDocument d maxSteps).upList offset 1 = some opener ∧
        (Navigator.ofDocument d' maxSteps).upList offset 1 = some opener ∧
        opener.start < cursor ∧
        (Navigator.ofDocument d' maxSteps).contextIn opener cursor =
          (Navigator.ofDocument d maxSteps).contextIn opener cursor := by
  have hs := Navigator.shows_ofDocument d maxSteps
  have hs' := Navigator.shows_ofDocument d' maxSteps
  have hn := countBefore_lt_length hcursor
  have hle := h.cursor_le hcursor
  obtain ⟨more, hkinds⟩ := h.exists_kinds_eq
  have hcount : countBefore (significantTokens d.text) offset ≤
      countBefore (significantTokens d.text) cursor := by
    apply List.countP_mono_left
    intro t _ hlt
    simp only [decide_eq_true_eq] at hlt ⊢
    omega
  have hwalk : (Navigator.ofDocument d maxSteps).upList offset 1 = _ :=
    hs.enclosingOpener_eq maxSteps offset
  have hwalk' : (Navigator.ofDocument d' maxSteps).upList offset 1 = _ :=
    hs'.enclosingOpener_eq maxSteps offset
  rw [(h.count_eq (by omega)).1, hkinds,
    Span.enclosing_append more _ (by rw [List.length_map]; omega)] at hwalk'
  rw [hwalk, hwalk']
  cases he : Span.enclosing ((significantTokens d.text).map (·.kind)) maxSteps
      (countBefore (significantTokens d.text) offset) with
  | none => exact .inl ⟨rfl, rfl⟩
  | some i =>
    obtain ⟨hkind, hlt⟩ := Span.opener_of_enclosing (by rw [List.length_map]; omega) he
    have hi : i < (significantTokens d.text).length := by omega
    have hkind : (significantTokens d.text)[i].kind = .opener := by simpa [hi] using hkind
    have hsame := h.getElem?_eq hi
    rw [List.getElem?_eq_getElem hi] at hsame
    obtain ⟨hi', htoken⟩ := List.getElem?_eq_some_iff.mp hsame
    have hcontext := h.contextIn_eq hcursor maxSteps hi hi' hkind (by omega)
    rw [htoken] at hcontext
    refine .inr ⟨(significantTokens d.text)[i], ?_, ?_, ?_, hcontext⟩
    · rw [Option.bind_some, List.getElem?_eq_getElem hi]
    · rw [Option.bind_some, hsame]
    · exact (hs.ordered.lt_countBefore_iff hi cursor).mp (by omega)

/-- **The lists around a cursor** that a token follows. -/
theorem contexts_eq (maxSteps : Nat) :
    (Navigator.ofDocument d' maxSteps).contexts cursor =
      (Navigator.ofDocument d maxSteps).contexts cursor := by
  rw [Navigator.contexts, Navigator.contexts]
  rcases h.upList_cases hcursor maxSteps (Int.le_refl cursor) with
    ⟨hup, hup'⟩ | ⟨inner, hup, hup', hstart, hcurrent⟩
  · rw [hup, hup']
  · rw [hup, hup']
    simp only [hcurrent]
    rcases h.upList_cases hcursor maxSteps (Int.le_of_lt hstart) with
      ⟨hup, hup'⟩ | ⟨outer, hup, hup', -, hparent⟩
    · rw [hup, hup', Option.map_none, Option.map_none]
    · rw [hup, hup', Option.map_some, Option.map_some, hparent]

end Contexts

/-- **The column that the rules give** for a line with a token in it or below. -/
theorem ruleColumn_eq (table : IndentTable) {k : Nat} (hk : k + 1 < d.lines.length)
    (hcursor : ∃ t ∈ significantTokens d.text, d.bodyStart k ≤ t.start) :
    d'.ruleColumn table k = d.ruleColumn table k := by
  have hle := h.cursor_le hcursor
  have hn : countEnded (significantTokens d.text) (d.bodyStart k) <
      (significantTokens d.text).length := by
    refine Nat.lt_of_le_of_lt ?_ (countBefore_lt_length hcursor)
    apply List.countP_mono_left
    intro t ht hstop
    have := (ordered_significantTokens d.text).start_lt_stop t ht
    simp only [decide_eq_true_eq] at hstop ⊢
    omega
  have hscan : (Navigator.ofDocument d' table.maxSteps).index.scan (d.bodyStart k) .forward false =
      (Navigator.ofDocument d table.maxSteps).index.scan (d.bodyStart k) .forward false := by
    rw [scan_forward_eq, scan_forward_eq, (h.count_eq hle).2, h.getElem?_eq hn]
  unfold ruleColumn
  dsimp only
  rw [h.bodyStart_eq hk, hscan, h.contexts_eq hcursor]

/-- **The edits for a line** that starts inside something, or has a token in it or below. -/
theorem editsFor_eq (table : IndentTable) {k : Nat} (hk : k + 1 < d.lines.length)
    (hline : d.StartsInside k ∨ ∃ t ∈ significantTokens d.text, d.bodyStart k ≤ t.start) :
    d'.editsFor table k = d.editsFor table k := by
  have hiff := h.startsInside_iff (Nat.lt_of_succ_lt hk)
  rw [editsFor, editsFor]
  by_cases hin : d.StartsInside k
  · rw [if_pos hin, if_pos (hiff.mpr hin)]
  · rw [if_neg hin, if_neg fun hin' => hin (hiff.mp hin'), h.alignment_eq _ _ hk,
      h.ruleColumn_eq table hk (hline.resolve_left hin)]

end Continues

/-! ### Text that ends with white space -/

/-- Where the last token is white space that ends with a line feed and reaches to the end of a
text, nothing else is pending. -/
theorem endsLine_and_pending_of_getLast? {t : Text} {last : Token}
    (hlast : (tokenize t).getLast? = some last) (hstop : last.stop = t.length)
    (hkind : last.kind = .space) (hfeed : last.text.getLast? = some lineFeed) :
    EndsLine t ∧ (pending t).all isSpace := by
  have hmem : last ∈ tokenize t := List.mem_of_getLast? hlast
  obtain ⟨before, after, htext, hstart, hend⟩ := exists_around_of_mem_tokenize hmem
  have hlength := congrArg List.length htext
  simp only [List.length_append] at hlength
  obtain rfl : after = [] := List.eq_nil_of_length_eq_zero (by omega)
  have hends : EndsLine t := by
    right
    rw [htext, List.append_nil, List.getLast?_append, hfeed, Option.some_or]
  refine ⟨hends, ?_⟩
  have hne : t ≠ [] := by
    rintro rfl
    rw [tokenize, lexemes_of_none rfl] at hlast
    cases hlast
  -- the last lexeme is what is pending, so that is neither unfinished nor an atom
  obtain ⟨ls, hreads⟩ := exists_reads_pending t
  have hlen := length_eq_of_reads hreads
  have hpos := List.length_pos_iff.mpr (pending_ne_nil hne)
  have htokens := tokenize_of_lexemes hreads.lexemes_eq
  rcases pending_cases hends with hp | hp | hp
  · exact hp
  · have hn := hp.1
    rw [lexemes_of_some hn, lexemes_of_none rfl] at htokens
    rw [htokens, Lexeme.layOut_cons, Lexeme.layOut_nil, List.getLast?_concat] at hlast
    obtain rfl := Option.some.inj hlast
    cases hkind
  · rw [lexemes_of_none hp.1, Lexeme.layOut_nil, List.append_nil] at htokens
    rw [htokens] at hmem
    have := stop_le_of_mem_layOut hmem
    omega

/-- **Text below a line** does not change how the line is indented. The text above ends with white
space and a line feed, and the first unit of the line that is no blank starts a token there, or lies
inside a string or a comment. -/
theorem computeIndent_append {d d' : Document} {s : Text} (htext : d'.text = d.text ++ s)
    {last : Token} (hlast : (tokenize d.text).getLast? = some last)
    (hstop : last.stop = d.text.length) (hkind : last.kind = .space)
    (hfeed : last.text.getLast? = some lineFeed) (table : IndentTable) {line start : Int}
    {width : Nat} {blank : Bool} (hline : d.lineIndentation line = .ok ⟨start, width, blank⟩)
    (hfirst : (∃ t ∈ significantTokens d.text, t.start = start + width) ∨
      ∃ t ∈ tokenize d.text, (t.kind = .string ∨ t.kind = .comment) ∧
        t.start < start + width ∧ start + width < t.stop) :
    ∃ edits, d.computeIndent start table = .ok edits ∧
      d'.computeIndent start table = .ok edits := by
  obtain ⟨hends, hpending⟩ := endsLine_and_pending_of_getLast? hlast hstop hkind hfeed
  have h : d.Continues d' := ⟨⟨s, htext⟩, hends, hpending⟩
  -- the line exists, and its first unit that is no blank has the offset in question
  obtain ⟨k, rfl, hlt⟩ : ∃ k : Nat, line = k ∧ k < d.lines.length := by
    by_cases hout : line < 0 ∨ (d.lines.length : Int) ≤ line
    · rw [lineIndentation, lineText, lineStart_of_not d hout] at hline
      cases hline
    · exact ⟨line.toNat, by omega, by omega⟩
  rw [lineIndentation_of_lt d hlt, Except.ok.injEq, LineIndentation.mk.injEq] at hline
  obtain ⟨rfl, rfl, -⟩ := hline
  rw [d.length_above_add_blanks hlt] at hfirst
  have hin : (∃ t ∈ significantTokens d.text, t.start = d.bodyStart k) ∨ d.StartsInside k := by
    refine hfirst.imp_right fun hinside => ?_
    obtain ⟨t, ht, hkinds, hbefore, hafter⟩ := hinside
    rw [← d.insideText_bodyStart_iff hlt, TokenIndex.insideText, Bool.or_eq_true,
      scan_backward_any]
    exact .inl ⟨t, ht, by rcases hkinds with h | h <;> simp [h], hbefore, hafter⟩
  -- the offset lies before the end of the text, where the last line starts
  have hk : k + 1 < d.lines.length := by
    have hoffset : d.bodyStart k < d.text.length := by
      rcases hfirst with ⟨t, ht, hstart⟩ | ⟨t, ht, -, -, hafter⟩
      · have := stop_lt_of_mem_significantTokens hends hpending ht
        have := (ordered_significantTokens d.text).start_lt_stop t ht
        omega
      · obtain ⟨before, after, hd, hstart, hend⟩ := exists_around_of_mem_tokenize ht
        have := congrArg List.length hd
        simp only [List.length_append] at this
        omega
    refine Nat.lt_of_not_le fun hle => ?_
    obtain rfl : k = d.lines.length - 1 := by omega
    have := congrArg List.length (text_eq_above hends)
    have := d.length_above_add_blanks hlt
    omega
  have hplace : d.StartsInside k ∨
      ∃ t ∈ significantTokens d.text, (d.bodyStart k : Int) ≤ t.start := by
    rcases hin with ⟨t, ht, hstart⟩ | hinside
    · exact .inr ⟨t, ht, Int.le_of_eq hstart.symm⟩
    · exact .inl hinside
  have hedits := h.editsFor_eq table hk hplace
  have hsame := d'.computeIndent_eq table (h.lt_length hk) (d'.lineAt_above (h.lt_length hk))
  rw [h.above_eq hlt] at hsame
  refine ⟨d.editsFor table k, d.computeIndent_eq table hlt (d.lineAt_above hlt), ?_⟩
  rw [hsame, hedits]

/-- The list around the second line is open, until the text below closes it and begins a string
without an end. -/
theorem computeIndent_append_unclosed :
    let d := ofText [leftParen, 0x61, lineFeed, space, 0x62, lineFeed]
    let d' := ofText [leftParen, 0x61, lineFeed, space, 0x62, lineFeed, rightParen, quotationMark]
    let table : IndentTable := ⟨.empty, [], [], [], [], [], [atSign], 6, 100, 100⟩
    d.lineIndentation 1 = .ok ⟨3, 1, false⟩ ∧
      (∃ t ∈ significantTokens d.text, t.start = 3 + 1) ∧
      ∃ edits, d.computeIndent 3 table = .ok edits ∧ d'.computeIndent 3 table = .ok edits := by
  intro d d' table
  have hline : d.lineIndentation 1 = .ok ⟨3, 1, false⟩ := by rfl
  have hfirst : ∃ t ∈ significantTokens d.text, t.start = 3 + 1 := by decide +kernel
  refine ⟨hline, hfirst, ?_⟩
  have hlast : (tokenize d.text).getLast? = some ⟨⟨.space, [lineFeed]⟩, ⟨5, 6⟩⟩ := by
    decide +kernel
  have htext : d'.text = d.text ++ [rightParen, quotationMark] := rfl
  exact computeIndent_append htext hlast rfl rfl rfl table hline (.inl hfirst)

end Document

end SexpEditing
