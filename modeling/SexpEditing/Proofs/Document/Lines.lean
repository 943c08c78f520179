import SexpEditing.Document.Basic
import SexpEditing.Proofs.Search

/-!
# The lines of a document

A text is its lines with line feeds between them. Around each line the text falls into three
parts: what is above it, which is empty or ends with a line feed, the line, and what is below it,
which is empty or begins with one. All that a document answers about lines and columns can be read
off these parts, and indenting a line changes the one line.

## Main definitions

* `Document.lines`: the lines of a document, without the line feeds
* `Text.above`, `Text.below`: the text around a line
* `Text.indented`: a line with its leading blanks replaced

## Main results

* `Document.text_eq_around`: the three parts of a text
* `Document.lineStart_of_lt`, `Document.lineAt_of_le`: where a line starts, and what it holds
* `Document.setLineIndentation_of_lt`: indenting a line changes that line only
-/

namespace SexpEditing

open CodeUnit

namespace Text

/-- The text above a line, with the line feeds that end its lines. -/
def above (ls : List Text) (k : Nat) : Text := (ls.take k).flatMap fun l => l ++ [lineFeed]

/-- The text below a line, with the line feeds before its lines. -/
def below (ls : List Text) (k : Nat) : Text := (ls.drop (k + 1)).flatMap fun l => lineFeed :: l

/-- The leading blanks of a line. -/
def blanks (l : Text) : Text := l.takeWhile isIndentation

/-- A line without its leading blanks. -/
def body (l : Text) : Text := l.dropWhile isIndentation

/-- A line indented to a column. -/
def indented (column : Int) (l : Text) : Text := List.replicate column.toNat space ++ l.body

@[simp] theorem above_zero (ls : List Text) : above ls 0 = [] := rfl

@[simp] theorem above_cons_succ (l : Text) (ls : List Text) (k : Nat) :
    above (l :: ls) (k + 1) = l ++ lineFeed :: above ls k := by
  simp [above]

@[simp] theorem below_cons_succ (l : Text) (ls : List Text) (k : Nat) :
    below (l :: ls) (k + 1) = below ls k := by
  simp [below]

theorem below_cons_zero (l : Text) (ls : List Text) :
    below (l :: ls) 0 = ls.flatMap fun l => lineFeed :: l := rfl

theorem above_succ {ls : List Text} {k : Nat} (hk : k < ls.length) :
    above ls (k + 1) = above ls k ++ ls[k] ++ [lineFeed] := by
  rw [above, List.take_succ_eq_append_getElem hk, List.flatMap_append]
  simp [above]

theorem above_eq_nil_or_ends (ls : List Text) (k : Nat) :
    above ls k = [] ∨ ∃ s, above ls k = s ++ [lineFeed] := by
  rcases List.eq_nil_or_concat (ls.take k) with h | ⟨init, l, h⟩
  · exact .inl (by simp [above, h])
  · exact .inr ⟨init.flatMap (fun l => l ++ [lineFeed]) ++ l, by simp [above, h]⟩

/-- A line ends before any line after it starts. -/
theorem length_above_lt {ls : List Text} {i j : Nat} (hij : i < j) (hj : j ≤ ls.length) :
    (above ls i).length + ls[i].length < (above ls j).length := by
  induction j with
  | zero => omega
  | succ j ih =>
    have hlen : (above ls (j + 1)).length = (above ls j).length + ls[j].length + 1 := by
      rw [above_succ (by omega)]
      simp [Nat.add_assoc]
    rcases Nat.lt_or_eq_of_le (Nat.lt_succ_iff.mp hij) with hlt | rfl
    · have := ih hlt (by omega)
      omega
    · omega

/-- Every offset of a text lies in a line or at its end. -/
theorem exists_line {ls : List Text} (hne : ls ≠ []) {place : Nat}
    (hp : place ≤ ([lineFeed].intercalate ls).length) :
    ∃ k, ∃ hk : k < ls.length,
      (above ls k).length ≤ place ∧ place ≤ (above ls k).length + ls[k].length := by
  induction ls generalizing place with
  | nil => contradiction
  | cons l rest ih =>
    by_cases hl : place ≤ l.length
    · exact ⟨0, by simp, by simp, by simpa using hl⟩
    · have hrest : rest ≠ [] := by
        rintro rfl
        rw [List.intercalate_singleton] at hp
        exact hl hp
      rw [List.intercalate_cons_of_ne_nil hrest] at hp
      simp only [List.append_assoc, List.length_append, List.length_singleton] at hp
      -- behind the first line and its line feed
      have hplace : place - l.length - 1 ≤ ([lineFeed].intercalate rest).length := by omega
      obtain ⟨k, hk, hlo, hhi⟩ := ih hrest hplace
      refine ⟨k + 1, by simpa using hk, ?_, ?_⟩ <;>
        simp only [above_cons_succ, List.getElem_cons_succ, List.length_append,
          List.length_cons] <;> omega

theorem above_set_of_le {ls : List Text} {k m : Nat} (h : k ≤ m) (l : Text) :
    above (ls.set m l) k = above ls k := by
  rw [above, List.take_set_of_le h, above]

theorem below_set_of_le {ls : List Text} {k m : Nat} (h : m ≤ k) (l : Text) :
    below (ls.set m l) k = below ls k := by
  rw [below, List.drop_set_of_lt (Nat.lt_succ_of_le h), below]

/-- The lines with line feeds between them, around one of them. -/
theorem intercalate_eq_around {ls : List Text} {k : Nat} (hk : k < ls.length) :
    [lineFeed].intercalate ls = above ls k ++ ls[k] ++ below ls k := by
  induction ls generalizing k with
  | nil => simp at hk
  | cons l rest ih =>
    cases k with
    | zero =>
      rw [below_cons_zero]
      cases rest with
      | nil => simp
      | cons l' rest =>
        rw [List.intercalate_cons_cons, ih (k := 0) (by simp)]
        simp [below_cons_zero]
    | succ k =>
      have hk : k < rest.length := by simpa using hk
      have hne : rest ≠ [] := by
        rintro rfl
        simp at hk
      rw [List.intercalate_cons_of_ne_nil hne, ih hk]
      simp

@[simp] theorem blanks_append_body (l : Text) : l.blanks ++ l.body = l :=
  List.takeWhile_append_dropWhile

theorem isIndentation_of_mem_blanks {l : Text} {c : CodeUnit} (h : c ∈ l.blanks) :
    c.isIndentation := by
  have := List.all_takeWhile (p := isIndentation) (l := l)
  exact List.all_eq_true.mp this c h

theorem not_isIndentation_of_body {l rest : Text} {c : CodeUnit} (h : l.body = c :: rest) :
    c.isIndentation = false := by
  have := List.head?_dropWhile_not isIndentation l
  rw [← body, h] at this
  simpa using this

/-- Blanks in front of a body are the leading blanks. -/
theorem blanks_append_of_body {b : Text} (hb : ∀ c ∈ b, c.isIndentation) (l : Text) :
    blanks (b ++ l.body) = b := by
  rw [blanks, List.takeWhile_append_of_pos hb]
  cases hl : l.body with
  | nil => simp
  | cons c rest => simp [not_isIndentation_of_body hl]

theorem body_append_of_body {b : Text} (hb : ∀ c ∈ b, c.isIndentation) (l : Text) :
    body (b ++ l.body) = l.body := by
  have h := blanks_append_body (b ++ l.body)
  rw [blanks_append_of_body hb] at h
  exact List.append_cancel_left h

theorem isIndentation_of_mem_replicate {n : Nat} {c : CodeUnit}
    (h : c ∈ List.replicate n space) : c.isIndentation := by
  rw [List.eq_of_mem_replicate h]
  rfl

@[simp] theorem blanks_indented (column : Int) (l : Text) :
    (l.indented column).blanks = List.replicate column.toNat space :=
  blanks_append_of_body (fun _ => isIndentation_of_mem_replicate) l

@[simp] theorem body_indented (column : Int) (l : Text) : (l.indented column).body = l.body :=
  body_append_of_body (fun _ => isIndentation_of_mem_replicate) l

/-- A line is indented to a column already if its blanks are that many spaces. -/
theorem indented_eq_self_iff {column : Int} {l : Text} :
    l.indented column = l ↔ l.blanks = List.replicate column.toNat space := by
  constructor
  · intro h
    rw [← h, blanks_indented]
  · intro h
    rw [indented, ← h, blanks_append_body]

end Text

theorem not_mem_of_mem_splitOn {t l : Text} (h : l ∈ t.splitOn lineFeed) : lineFeed ∉ l := by
  induction t generalizing l with
  | nil =>
    rw [List.splitOn_nil, List.mem_singleton] at h
    simp [h]
  | cons c rest ih =>
    rw [List.splitOn_cons_eq_if_modifyHead] at h
    by_cases hc : c = lineFeed
    · rw [if_pos (by simpa using hc), List.mem_cons] at h
      rcases h with rfl | h
      · simp
      · exact ih h
    · rw [if_neg (by simpa using hc)] at h
      obtain ⟨first, others, hl⟩ := List.exists_cons_of_ne_nil (List.splitOn_ne_nil lineFeed rest)
      rw [hl, List.modifyHead_cons, List.mem_cons] at h
      rw [hl] at ih
      rcases h with rfl | h
      · rw [List.mem_cons, not_or]
        exact ⟨Ne.symm hc, ih List.mem_cons_self⟩
      · exact ih (List.mem_cons_of_mem first h)

/-- Where the lines of a text start: after the text above them. -/
theorem cons_lineStartsAfter_eq (offset : Nat) (t : Text) :
    offset :: lineStartsAfter offset t =
      (List.range (t.splitOn lineFeed).length).map fun k =>
        offset + (Text.above (t.splitOn lineFeed) k).length := by
  induction t generalizing offset with
  | nil => simp [lineStartsAfter]
  | cons c rest ih =>
    rw [lineStartsAfter, List.splitOn_cons_eq_if_modifyHead]
    have ih := ih (offset + 1)
    by_cases hc : c = lineFeed
    · simp only [hc, if_true, beq_self_eq_true, List.length_cons, List.range_succ_eq_map,
        List.map_cons, List.map_map]
      rw [ih]
      simp [Function.comp_def, Nat.add_assoc, Nat.add_comm 1]
    · simp only [if_neg hc, beq_iff_eq]
      obtain ⟨l, ls, hl⟩ := List.exists_cons_of_ne_nil (List.splitOn_ne_nil lineFeed rest)
      rw [hl] at ih ⊢
      simp only [List.length_cons, List.range_succ_eq_map, List.map_cons, List.map_map,
        List.cons.injEq, Function.comp_def] at ih
      simp only [List.modifyHead_cons, List.length_cons, List.range_succ_eq_map, List.map_cons,
        List.map_map, Function.comp_def, ih.2]
      simp [Nat.add_assoc, Nat.add_comm 1]

namespace Document

/-- The lines of a document, without the line feeds between them. -/
def lines (d : Document) : List Text := d.text.splitOn lineFeed

theorem lines_ne_nil (d : Document) : d.lines ≠ [] := List.splitOn_ne_nil _ _

theorem text_eq_intercalate (d : Document) : d.text = [lineFeed].intercalate d.lines :=
  (List.intercalate_splitOn lineFeed).symm

/-- The three parts of a text around a line. -/
theorem text_eq_around (d : Document) {k : Nat} (hk : k < d.lines.length) :
    d.text = Text.above d.lines k ++ d.lines[k] ++ Text.below d.lines k := by
  rw [← Text.intercalate_eq_around hk, ← text_eq_intercalate]

/-- A document is known by its lines and its version. -/
theorem lines_atVersion {ls : List Text} (hne : ls ≠ []) (h : ∀ l ∈ ls, lineFeed ∉ l)
    (version : Nat) : (atVersion version ([lineFeed].intercalate ls)).lines = ls :=
  List.splitOn_intercalate lineFeed h hne

theorem not_mem_of_mem_lines {d : Document} {l : Text} (h : l ∈ d.lines) : lineFeed ∉ l :=
  not_mem_of_mem_splitOn h

theorem lineStarts_eq_map (d : Document) :
    d.lineStarts =
      ((List.range d.lines.length).map fun k => (Text.above d.lines k).length).toArray := by
  rw [d.lineStarts_eq, lineStartsOf, cons_lineStartsAfter_eq]
  simp [lines, text]

@[simp] theorem lineCount_eq (d : Document) : d.lineCount = d.lines.length := by
  simp [lineCount, lineStarts_eq_map]

theorem lineStarts_getElem? (d : Document) {k : Nat} (hk : k < d.lines.length) :
    d.lineStarts[k]? = some (Text.above d.lines k).length := by
  simp [lineStarts_eq_map, hk]

/-- A line starts after the text above it. -/
theorem lineStart_of_lt (d : Document) {k : Nat} (hk : k < d.lines.length) :
    d.lineStart k = .ok (Text.above d.lines k).length := by
  rw [lineStart, if_neg (by omega), Int.toNat_natCast, lineStarts_getElem? d hk]

theorem lineStart_of_not (d : Document) {line : Int}
    (h : line < 0 ∨ (d.lines.length : Int) ≤ line) :
    d.lineStart line = .error (.lineOutOfRange line (d.lines.length - 1)) := by
  rw [lineStart, lineCount_eq]
  by_cases hneg : line < 0
  · rw [if_pos hneg]
  · rw [if_neg hneg, lineStarts_eq_map, List.getElem?_toArray, List.getElem?_eq_none]
    simp only [List.length_map, List.length_range]
    omega

/-- Only a line of the document has a text. -/
theorem exists_line_of_lineText {d : Document} {line : Int} {l : Text}
    (h : d.lineText line = .ok l) : ∃ k : Nat, line = k ∧ k < d.lines.length := by
  by_cases hline : line < 0 ∨ (d.lines.length : Int) ≤ line
  · rw [lineText, d.lineStart_of_not hline] at h
    cases h
  · exact ⟨line.toNat, by omega, by omega⟩

theorem length_above_add_le (d : Document) {k : Nat} (hk : k < d.lines.length) :
    (Text.above d.lines k).length + d.lines[k].length ≤ d.text.length := by
  rw [text_eq_around d hk]
  simp only [List.length_append]
  omega

theorem clamp_of_le (d : Document) {n : Nat} (h : n ≤ d.text.length) : d.clamp n = n := by
  rw [clamp_eq, Text.clamp_of_mem _ h]

theorem inOrder_lineStarts (d : Document) (place : Nat) :
    InOrder d.lineStarts fun start => compare place start := by
  intro i j hi hj hij
  rw [lineStarts_eq_map] at hi hj
  have hj' : j < d.lines.length := by simpa using hj
  have := Text.length_above_lt hij (Nat.le_of_lt hj')
  simp only [lineStarts_eq_map, List.getElem_toArray, List.getElem_map, List.getElem_range,
    Nat.compare_eq_lt, Nat.compare_eq_gt]
  omega

/-- An offset in a line, or at its end, is held by that line. -/
theorem lineAt_of_le (d : Document) {k offset : Nat} (hk : k < d.lines.length)
    (hlo : (Text.above d.lines k).length ≤ offset)
    (hhi : offset ≤ (Text.above d.lines k).length + d.lines[k].length) :
    d.lineAt offset = k := by
  have hle := d.length_above_add_le hk
  rw [lineAt, clamp_of_le d (by omega)]
  cases hs : search d.lineStarts fun start => compare offset start with
  | found i =>
    obtain ⟨hi, he⟩ := side_of_search_found hs
    have hi' : i < d.lines.length := by simpa [lineStarts_eq_map] using hi
    simp only [lineStarts_eq_map, List.getElem_toArray, List.getElem_map, List.getElem_range,
      Nat.compare_eq_eq] at he
    rcases Nat.lt_trichotomy i k with hlt | rfl | hgt
    · have := Text.length_above_lt hlt (Nat.le_of_lt hk)
      omega
    · rfl
    · have := Text.length_above_lt hgt (Nat.le_of_lt hi')
      omega
  | gap i =>
    obtain ⟨hi, hl, hr⟩ := sides_of_search_gap (d.inOrder_lineStarts offset) hs
    simp only [lineStarts_eq_map, List.getElem_toArray, List.getElem_map, List.getElem_range,
      List.size_toArray, List.length_map, List.length_range, Nat.compare_eq_gt,
      Nat.compare_eq_lt] at hi hl hr
    have hki : k < i := Nat.lt_of_not_le fun hn => by
      have := hr k hk hn
      omega
    have hik : i ≤ k + 1 := Nat.le_of_not_lt fun hn => by
      have h₁ := hl (k + 1) (by omega) (by omega)
      have hle : k + 1 ≤ d.lines.length := hk
      have h₂ := Text.length_above_lt (show k < k + 1 by omega) hle
      omega
    simp only
    omega

/-- The column of an offset is its distance from the start of its line. -/
theorem columnAt_of_le (d : Document) {k offset : Nat} (hk : k < d.lines.length)
    (hlo : (Text.above d.lines k).length ≤ offset)
    (hhi : offset ≤ (Text.above d.lines k).length + d.lines[k].length) :
    d.columnAt offset = offset - (Text.above d.lines k).length := by
  have hle := d.length_above_add_le hk
  rw [columnAt, clamp_of_le d (by omega), lineAt_of_le d hk hlo hhi, Int.toNat_natCast,
    lineStarts_getElem? d hk]
  rfl

/-- Every offset is held by a line. -/
theorem exists_lineAt (d : Document) (offset : Int) :
    ∃ k, ∃ hk : k < d.lines.length, d.lineAt offset = k ∧
      (Text.above d.lines k).length ≤ d.clamp offset ∧
      d.clamp offset ≤ (Text.above d.lines k).length + d.lines[k].length := by
  have hc : d.clamp offset ≤ d.text.length := Text.clamp_le_length d.text offset
  have hp : d.clamp offset ≤ ([lineFeed].intercalate d.lines).length := by
    rwa [← text_eq_intercalate]
  obtain ⟨k, hk, hlo, hhi⟩ := Text.exists_line d.lines_ne_nil hp
  refine ⟨k, hk, ?_, hlo, hhi⟩
  rw [← lineAt_of_le d hk hlo hhi, lineAt, lineAt, clamp_of_le d hc]

theorem columnAt_nonneg (d : Document) (offset : Int) : 0 ≤ d.columnAt offset := by
  obtain ⟨k, hk, hline, hlo, -⟩ := d.exists_lineAt offset
  rw [columnAt, hline, Int.toNat_natCast, lineStarts_getElem? d hk, Option.getD_some]
  omega

/-! ### Reading and indenting a line -/

theorem readRange_of_append {d : Document} {before part after : Text}
    (h : d.text = before ++ part ++ after) :
    d.readRange before.length (before.length + part.length) = part := by
  rw [readRange_eq_slice, h, Text.slice_append]

/-- The line and the column of an offset, seen from the start of the line. -/
theorem exists_lineStart_of_le (d : Document) {offset : Nat} (h : offset ≤ d.text.length) :
    ∃ start : Nat, d.lineStart (d.lineAt offset) = .ok start ∧
      start + d.columnAt offset = offset ∧ 0 ≤ d.columnAt offset ∧
      lineFeed ∉ d.readRange start offset := by
  obtain ⟨k, hk, hline, hlo, hhi⟩ := d.exists_lineAt offset
  rw [clamp_of_le d h] at hlo hhi
  have hcolumn := d.columnAt_of_le hk hlo hhi
  refine ⟨(Text.above d.lines k).length, ?_, by omega, by omega, ?_⟩
  · rw [hline, lineStart_of_lt d hk]
  · -- what stands between them is a part of one line
    have hlen : offset - (Text.above d.lines k).length ≤ d.lines[k].length := by omega
    have htext : d.text = Text.above d.lines k ++
        d.lines[k].take (offset - (Text.above d.lines k).length) ++
        (d.lines[k].drop (offset - (Text.above d.lines k).length) ++ Text.below d.lines k) := by
      rw [List.append_assoc, ← List.append_assoc (List.take _ _), List.take_append_drop,
        ← List.append_assoc, ← text_eq_around d hk]
    have hread := readRange_of_append htext
    rw [List.length_take_of_le hlen, ← Int.natCast_add, Nat.add_sub_cancel' hlo] at hread
    rw [hread]
    exact fun hm => not_mem_of_mem_lines (List.getElem_mem hk) (List.mem_of_mem_take hm)

theorem replaceRange_of_append {d : Document} {before part after : Text}
    (h : d.text = before ++ part ++ after) (replacement : Text) :
    d.replaceRange before.length (before.length + part.length) replacement =
      .ok (atVersion (d.version + 1) (before ++ replacement ++ after)) := by
  have hlen : (before.length : Int) + part.length ≤ d.length := by
    rw [← length_text, h]
    simp only [List.length_append]
    omega
  have htake : d.text.take before.length = before := by
    rw [h, List.append_assoc, List.take_left]
  have hdrop : d.text.drop (before.length + part.length) = after := by
    rw [h, ← List.length_append, List.drop_left]
  rw [replaceRange, if_neg (by omega), ← Int.natCast_add, Int.toNat_natCast, Int.toNat_natCast,
    htake, hdrop]

theorem lineText_of_lt (d : Document) {k : Nat} (hk : k < d.lines.length) :
    d.lineText k = .ok (dropFinalReturn d.lines[k]) := by
  have hread := readRange_of_append (d.text_eq_around hk)
  rw [lineText, lineStart_of_lt d hk, lineCount_eq]
  simp only [bind, Except.bind]
  by_cases hlast : k + 1 < d.lines.length
  · have hs := d.lineStart_of_lt hlast
    rw [Int.natCast_add, Int.natCast_one] at hs
    have hstop : ((Text.above d.lines (k + 1)).length : Int) - 1 =
        (Text.above d.lines k).length + d.lines[k].length := by
      rw [Text.above_succ hk]
      simp only [List.length_append, List.length_singleton]
      omega
    rw [if_pos (by omega), hs]
    simp only [Functor.map, Except.map, hstop, hread]
    rfl
  · have hlength : d.length = (Text.above d.lines k).length + d.lines[k].length := by
      have hbelow : Text.below d.lines k = [] := by
        rw [Text.below, List.drop_of_length_le (by omega)]
        rfl
      rw [← length_text, text_eq_around d hk, hbelow]
      simp
    rw [if_neg (by omega)]
    simp only [hlength, hread]
    rfl

/-- The carriage return that a line may end with is none of its leading blanks. -/
theorem takeWhile_dropFinalReturn (l : Text) :
    (dropFinalReturn l).takeWhile isIndentation = l.blanks := by
  unfold dropFinalReturn
  split
  · next h =>
    obtain ⟨init, rfl⟩ := List.getLast?_eq_some_iff.mp h
    rw [List.dropLast_concat, Text.blanks, List.takeWhile_append]
    split
    · next hall =>
      rw [(List.takeWhile_prefix isIndentation).eq_of_length hall]
      exact (List.append_nil init).symm
    · rfl
  · rfl

theorem lineIndentation_of_lt (d : Document) {k : Nat} (hk : k < d.lines.length) :
    d.lineIndentation k = .ok ⟨(Text.above d.lines k).length, d.lines[k].blanks.length,
      d.lines[k].blanks.length == (dropFinalReturn d.lines[k]).length⟩ := by
  rw [lineIndentation, lineText_of_lt d hk, lineStart_of_lt d hk]
  simp only [bind, Except.bind, takeWhile_dropFinalReturn]
  rfl

/-- A document in which one line is replaced. -/
def setLine (d : Document) (k : Nat) (l : Text) : Document :=
  atVersion (d.version + 1) ([lineFeed].intercalate (d.lines.set k l))

theorem lines_setLine {d : Document} {k : Nat} {l : Text} (h : lineFeed ∉ l) :
    (d.setLine k l).lines = d.lines.set k l := by
  refine lines_atVersion ?_ (fun m hm => ?_) _
  · simpa [List.set_eq_nil_iff] using d.lines_ne_nil
  · rcases List.mem_or_eq_of_mem_set hm with hm | rfl
    · exact not_mem_of_mem_lines hm
    · exact h

theorem text_setLine (d : Document) {k : Nat} (hk : k < d.lines.length) (l : Text) :
    (d.setLine k l).text = Text.above d.lines k ++ l ++ Text.below d.lines k := by
  have hset : k < (d.lines.set k l).length := by
    rw [List.length_set]
    exact hk
  have h := Text.intercalate_eq_around hset
  rw [Text.above_set_of_le (Nat.le_refl k), Text.below_set_of_le (Nat.le_refl k),
    List.getElem_set_self] at h
  rw [setLine, text_atVersion, h]

theorem not_mem_indented {l : Text} (h : lineFeed ∉ l) (column : Int) :
    lineFeed ∉ l.indented column := by
  rw [Text.indented, List.mem_append, not_or]
  refine ⟨fun hm => ?_, fun hm => h ?_⟩
  · exact absurd (List.eq_of_mem_replicate hm) (by decide)
  · rw [← Text.blanks_append_body l]
    exact List.mem_append_right _ hm

/-- **Indenting a line** replaces its leading blanks, and leaves a line alone that has them
already. -/
theorem setLineIndentation_of_lt (d : Document) {k : Nat} (hk : k < d.lines.length)
    (column : Int) :
    d.setLineIndentation k column =
      .ok (if d.lines[k].indented column = d.lines[k] then (d, false)
        else (d.setLine k (d.lines[k].indented column), true)) := by
  have htext : d.text = Text.above d.lines k ++ d.lines[k].blanks ++
      (d.lines[k].body ++ Text.below d.lines k) := by
    rw [List.append_assoc, ← List.append_assoc _ _ (Text.below d.lines k),
      Text.blanks_append_body, ← List.append_assoc, ← text_eq_around d hk]
  rw [setLineIndentation, lineIndentation_of_lt d hk]
  simp only [bind, Except.bind, readRange_of_append htext, Text.indented_eq_self_iff]
  by_cases hb : d.lines[k].blanks = List.replicate column.toNat space
  · rw [if_pos hb, if_pos hb]
    rfl
  · rw [if_neg hb, if_neg hb]
    rw [replaceRange_of_append htext]
    have hedit := text_setLine d hk (d.lines[k].indented column)
    rw [setLine, text_atVersion] at hedit
    rw [setLine, hedit, Text.indented]
    simp only [List.append_assoc]
    rfl

end Document

end SexpEditing
