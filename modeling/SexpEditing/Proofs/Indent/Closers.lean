import SexpEditing.Proofs.Indent.Places

/-!
# Lines of closing delimiters

A line of closing delimiters stands under an opening delimiter that is matched by the last of those
that begin it. The blanks of the line count for nothing in this, and the opening delimiter always
stands on a line above, since none can stand among closing ones.

## Main results

* `splitClosers_append`, `Document.lineOf_eq`: the blanks of a line count for nothing
* `Document.exists_line_of_opener`: an opening delimiter stands in a line that holds one
* `Document.lineAt_lt_of_opener`: where an opening delimiter must stand on a line above
* `Document.closerColumnAt_eq_map`: the opening delimiter that decides the column
-/

namespace SexpEditing

open CodeUnit Token

/-! ### Closing delimiters behind blanks -/

theorem splitClosers_append {b : Text} (hb : b.all isSpace) (l : Text) :
    splitClosers (b ++ l) =
      (splitClosers l).map fun split => (b.length + split.1, split.2) := by
  have hall : ∀ c ∈ b, isSpace c = true := List.all_eq_true.mp hb
  unfold splitClosers
  dsimp only
  rw [List.takeWhile_append_of_pos hall, List.dropWhile_append_of_pos hall]
  split
  · rfl
  · simp [Nat.add_assoc]

theorem isBareCloserLine_append {b : Text} (hb : b.all isSpace) (l : Text) :
    isBareCloserLine (b ++ l) = isBareCloserLine l := by
  rw [isBareCloserLine, isBareCloserLine, splitClosers_append hb]
  cases splitClosers l <;> rfl

theorem isCloserLine_append {b : Text} (hb : b.all isSpace) (l : Text) :
    isCloserLine (b ++ l) = isCloserLine l := by
  rw [isCloserLine, isCloserLine, splitClosers_append hb]
  cases splitClosers l <;> rfl

/-- No opening delimiter comes before the end of the closing delimiters that begin a line. -/
theorem of_splitClosers {l rest : Text} {width : Nat} (h : splitClosers l = some (width, rest)) :
    ∃ front, l = front ++ rest ∧ front.length = width ∧ leftParen ∉ front := by
  unfold splitClosers at h
  dsimp only at h
  split at h
  · cases h
  · cases h
    -- blanks, then closing delimiters
    refine ⟨l.takeWhile isSpace ++ (l.dropWhile isSpace).takeWhile (· == rightParen), ?_, ?_, ?_⟩
    · rw [List.append_assoc, List.takeWhile_append_dropWhile, List.takeWhile_append_dropWhile]
    · rw [List.length_append]
    · intro hmem
      rcases List.mem_append.mp hmem with hmem | hmem
      · have := List.all_eq_true.mp (List.all_takeWhile (p := isSpace) (l := l)) _ hmem
        cases this
      · have := List.all_eq_true.mp
          (List.all_takeWhile (p := (· == rightParen)) (l := l.dropWhile isSpace)) _ hmem
        cases this

theorem isCloserLine_of_isBareCloserLine {l : Text} (h : isBareCloserLine l) : isCloserLine l := by
  rw [isBareCloserLine] at h
  rw [isCloserLine]
  cases hs : splitClosers l with
  | none =>
    rw [hs] at h
    cases h
  | some split =>
    rw [hs, Option.any_some, List.all_eq_true] at h
    have hrest : (split.2 ++ []).dropWhile isSpace = [] := List.dropWhile_append_of_pos h
    rw [List.append_nil] at hrest
    simp [hrest]

/-- A bare closer line holds no opening delimiter. -/
theorem not_mem_of_isBareCloserLine {l : Text} (h : isBareCloserLine l) : leftParen ∉ l := by
  rw [isBareCloserLine] at h
  cases hs : splitClosers l with
  | none =>
    rw [hs] at h
    cases h
  | some split =>
    obtain ⟨width, rest⟩ := split
    rw [hs, Option.any_some, List.all_eq_true] at h
    obtain ⟨front, rfl, -, hfront⟩ := of_splitClosers hs
    intro hmem
    rcases List.mem_append.mp hmem with hmem | hmem
    · exact hfront hmem
    · have := h _ hmem
      cases this

/-! ### Opening delimiters -/

theorem text_eq_of_opener {t after : Text} {l : Lexeme} (h : nextLexeme t = some (l, after))
    (hl : l.kind = .opener) : l.text = [leftParen] := by
  revert h
  -- strings and comments of several units are the cases with a tail
  fun_cases nextLexeme t with
  | case1 => simp
  | case2 rest =>
    intro h
    obtain ⟨⟨tail, after⟩, -, he⟩ := Option.map_eq_some_iff.mp h
    cases he
    cases hl
  | case8 rest =>
    intro h
    obtain ⟨⟨tail, after⟩, -, he⟩ := Option.map_eq_some_iff.mp h
    cases he
    cases hl
  | case6 =>
    rintro ⟨⟩
    rfl
  | case3 | case4 | case5 | case7 | case9 | case10 =>
    rintro ⟨⟩
    cases hl

theorem text_eq_of_mem_lexemes {t : Text} {l : Lexeme} (h : l ∈ lexemes t) (hl : l.kind = .opener) :
    l.text = [leftParen] := by
  fun_induction lexemes t with
  | case1 => simp at h
  | case2 t l' after hn ih =>
    rcases List.mem_cons.mp h with rfl | h
    · exact text_eq_of_opener hn hl
    · exact ih h

/-- An opening delimiter stands where the text has one. -/
theorem getElem?_of_opener {t : Text} {u : Token} (hu : u ∈ significantTokens t)
    (hk : u.kind = .opener) {n : Nat} (hn : u.start = n) : t[n]? = some leftParen := by
  have hmem := (List.mem_filter.mp hu).1
  have htext : u.text = [leftParen] := text_eq_of_mem_lexemes (mem_of_mem_layOut hmem) hk
  obtain ⟨before, after, rfl, hstart, -⟩ := exists_around_of_mem_tokenize hmem
  obtain rfl : n = before.length := by omega
  simp [htext]

namespace Document

section Lines

variable (d : Document) {k : Nat} (hk : k < d.lines.length)
include hk

theorem lineOf_eq : d.lineOf k = d.lines[k].blanks ++ dropFinalReturn d.lines[k].body := by
  rw [lineOf, List.getElem?_eq_getElem hk, Option.getD_some]
  generalize d.lines[k] = l
  -- a final carriage return belongs to the body, unless there is none
  by_cases hbody : l.body = []
  · have hl := Text.blanks_append_body l
    rw [hbody, List.append_nil] at hl
    rw [hbody, dropFinalReturn, if_neg]
    · show l = l.blanks ++ []
      rw [List.append_nil, hl]
    · intro hlast
      rw [← hl] at hlast
      have := Text.isIndentation_of_mem_blanks (List.mem_of_getLast? hlast)
      cases this
  · have hlast : l.getLast? = l.body.getLast? := by
      have := congrArg List.getLast? (Text.blanks_append_body l)
      rw [List.getLast?_append, List.getLast?_eq_some_getLast hbody, Option.some_or] at this
      rw [← this, List.getLast?_eq_some_getLast hbody]
    unfold dropFinalReturn
    rw [hlast]
    split
    · rw [← List.dropLast_append_of_ne_nil hbody, Text.blanks_append_body]
    · rw [Text.blanks_append_body]

/-- Whether a line is a line of closing delimiters does not depend on its blanks. -/
theorem isBareCloserLine_lineOf :
    isBareCloserLine (d.lineOf k) = isBareCloserLine (dropFinalReturn d.lines[k].body) := by
  rw [lineOf_eq d hk, isBareCloserLine_append (Text.all_isSpace_blanks _)]

theorem isCloserLine_lineOf :
    isCloserLine (d.lineOf k) = isCloserLine (dropFinalReturn d.lines[k].body) := by
  rw [lineOf_eq d hk, isCloserLine_append (Text.all_isSpace_blanks _)]

end Lines

/-! ### The lines that hold opening delimiters -/

/-- Every unit of the text but a line feed stands in a line. -/
theorem exists_line_of_getElem? (d : Document) {n : Nat} {c : CodeUnit} (hc : d.text[n]? = some c)
    (hne : c ≠ lineFeed) :
    ∃ k, ∃ hk : k < d.lines.length, d.placeOf n = ((k : Int), n - d.bodyStart k) ∧
      (Text.above d.lines k).length ≤ n ∧
      d.lines[k][n - (Text.above d.lines k).length]? = some c := by
  have hn := (List.getElem?_eq_some_iff.mp hc).1
  obtain ⟨k, hk, hplace, hlo, hhi⟩ := d.exists_placeOf (Nat.le_of_lt hn)
  refine ⟨k, hk, hplace, hlo, ?_⟩
  rw [d.text_eq_around hk, List.append_assoc, List.getElem?_append_right hlo] at hc
  by_cases hlt : n - (Text.above d.lines k).length < d.lines[k].length
  · rwa [List.getElem?_append_left hlt] at hc
  · rw [List.getElem?_append_right (by omega)] at hc
    -- behind the line there is nothing but a line feed
    have hzero : n - (Text.above d.lines k).length - d.lines[k].length = 0 := by omega
    rw [hzero] at hc
    rcases Text.below_eq_nil_or_begins d.lines k with hnil | ⟨s, hs⟩
    · rw [hnil] at hc
      cases hc
    · rw [hs] at hc
      cases hc
      exact absurd rfl hne

/-- An opening delimiter stands in a line that holds one. -/
theorem exists_line_of_opener (d : Document) {t : Token} (ht : t ∈ significantTokens d.text)
    (hkind : t.kind = .opener) :
    ∃ n k, ∃ hk : k < d.lines.length, t.start = (n : Nat) ∧ n ≤ d.text.length ∧
      d.placeOf n = ((k : Int), n - d.bodyStart k) ∧ (Text.above d.lines k).length ≤ n ∧
      d.lines[k][n - (Text.above d.lines k).length]? = some leftParen := by
  obtain ⟨n, hn, hle⟩ := exists_start_of_mem_significantTokens ht
  obtain ⟨k, hk, hplace, hlo, hunit⟩ :=
    d.exists_line_of_getElem? (getElem?_of_opener ht hkind hn) (by decide)
  exact ⟨n, k, hk, hn, hle, hplace, hlo, hunit⟩

/-- Before a place in a line that no opening delimiter precedes there, all opening delimiters stand
on lines above. -/
theorem lineAt_lt_of_opener (d : Document) {t : Token} (ht : t ∈ significantTokens d.text)
    (hkind : t.kind = .opener) {k : Nat} (hk : k < d.lines.length) {front rest : Text}
    (hbody : d.lines[k].body = front ++ rest) (hfront : leftParen ∉ front)
    (hlt : t.start < d.bodyStart k + front.length) : d.lineAt t.start < k := by
  obtain ⟨n, j, hj, hn, hle, hplace, hlo, hunit⟩ := d.exists_line_of_opener ht hkind
  have hx : front.length ≤ d.lines[k].body.length := by
    rw [hbody, List.length_append]
    omega
  rw [hn] at hlt ⊢
  rcases (d.lt_bodyStart_add_iff hle hk hx).mp hlt with hline | ⟨hline, hdistance⟩
  · exact hline
  · -- the blanks of the line hold none, and neither does the front of its body
    rw [hplace] at hline hdistance
    obtain rfl : j = k := Int.ofNat.inj hline
    have hstart := bodyStart_eq d hj
    rw [← Text.blanks_append_body d.lines[j], hbody, ← List.append_assoc,
      List.getElem?_append_left (by rw [List.length_append]; omega)] at hunit
    rcases List.mem_append.mp (List.mem_of_getElem? hunit) with hmem | hmem
    · have := Text.isIndentation_of_mem_blanks hmem
      cases this
    · exact absurd hmem hfront

/-- A line may end with a carriage return that does not count. -/
theorem exists_dropFinalReturn_append (t : Text) :
    ∃ r, t = dropFinalReturn t ++ r ∧ ∀ c ∈ r, c = carriageReturn := by
  unfold dropFinalReturn
  split
  · next h =>
    obtain ⟨init, rfl⟩ := List.getLast?_eq_some_iff.mp h
    exact ⟨[carriageReturn], by rw [List.dropLast_concat], by simp⟩
  · exact ⟨[], (List.append_nil t).symm, by simp⟩

/-- The opening delimiter that decides where a line of closing delimiters stands. -/
theorem closerColumnAt_eq_map (d : Document) (maxSteps : Nat) {k : Nat} (hk : k < d.lines.length) :
    d.closerColumnAt maxSteps k =
      ((splitClosers (dropFinalReturn d.lines[k].body)).bind fun split =>
        (Span.before ((significantTokens d.text).map (·.kind))
          (countBefore (significantTokens d.text) (d.bodyStart k + split.1))).bind fun u =>
            u.delimiters.bind fun p => (significantTokens d.text)[p.1]?).map
        fun t => d.columnAt t.start := by
  rw [closerColumnAt, lineOf_eq d hk, splitClosers_append (Text.all_isSpace_blanks _)]
  cases splitClosers (dropFinalReturn d.lines[k].body) with
  | none => rfl
  | some split =>
    have hoffset : ((Text.above d.lines k).length : Int) +
        (d.lines[k].blanks.length + split.1 : Nat) = d.bodyStart k + split.1 := by
      rw [bodyStart_eq d hk]
      omega
    simp only [Option.map_some, Option.bind_eq_bind, Option.bind_some]
    rw [hoffset, (Navigator.shows_ofDocument d maxSteps).backwardSexp_eq]
    cases hu : Span.before ((significantTokens d.text).map (·.kind))
        (countBefore (significantTokens d.text) (d.bodyStart k + split.1)) with
    | none => rfl
    | some u =>
      obtain ⟨hle, -, hlast⟩ := Span.before_eq_some hu
      rw [List.length_map] at hlast
      simp only [Option.bind_some]
      rw [Span.sexp_eq_some (by omega) hlast, Option.bind_some]
      cases u.delimiters.bind fun p => (significantTokens d.text)[p.1]? <;> rfl

end Document

end SexpEditing
