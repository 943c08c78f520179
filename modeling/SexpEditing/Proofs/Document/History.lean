import SexpEditing.Proofs.Document.Lines

/-!
# Documents under edit

A document is asked to replace parts of its text, one after the other. It refuses a request whose
offsets delimit no part, and then stays as it is; otherwise its version grows by one. Whatever
it was asked so far, its lines are those of its text: offsets are held by the line that as many
line feeds precede, and the lines and their ends make up the text.

## Main definitions

* `Replacement`, `Replacement.Fits`: a request, and when it is granted
* `Document.replace`, `Document.afterAll`: a document after one request, and after several ones
* `Document.granted`: how many requests are granted
* `Text.lineEnd`, `Document.pieces`: the end of a line, and all lines with their ends

## Main results

* `Document.replace_of_fits`, `Document.replace_of_not_fits`: one request
* `Document.version_afterAll`: the version after several requests
* `Document.lineAt_eq_count`: line feeds before an offset
* `Document.text_eq_pieces`: the lines and their ends
* `Document.lines_after_history`: a document after any history
-/

namespace SexpEditing

open CodeUnit

/-- A request to replace the text between two offsets. -/
structure Replacement where
  start : Int
  stop : Int
  text : Text
deriving DecidableEq, Repr

/-- The offsets of a request delimit a part of a document. -/
def Replacement.Fits (r : Replacement) (d : Document) : Prop :=
  0 ≤ r.start ∧ r.start ≤ r.stop ∧ r.stop ≤ d.length

namespace Text

/-- The carriage return that a line ends with, if it has one. -/
def lineEnd (l : Text) : Text := if l.getLast? = some carriageReturn then [carriageReturn] else []

theorem dropFinalReturn_append_lineEnd (l : Text) :
    Document.dropFinalReturn l ++ l.lineEnd = l := by
  rw [Document.dropFinalReturn, lineEnd]
  split
  · next h =>
    obtain ⟨init, rfl⟩ := List.getLast?_eq_some_iff.mp h
    rw [List.dropLast_concat]
  · exact List.append_nil l

theorem lineEnd_eq_nil_or (l : Text) : l.lineEnd = [] ∨ l.lineEnd = [carriageReturn] := by
  rw [lineEnd]
  split
  · exact .inr rfl
  · exact .inl rfl

/-- One line feed follows each line above. -/
theorem count_above {ls : List Text} (h : ∀ l ∈ ls, lineFeed ∉ l) {k : Nat} (hk : k ≤ ls.length) :
    (above ls k).count lineFeed = k := by
  induction k with
  | zero => rfl
  | succ k ih =>
    have hlt : k < ls.length := hk
    have hline : ls[k].count lineFeed = 0 :=
      List.count_eq_zero_of_not_mem (h _ (List.getElem_mem hlt))
    rw [above_succ hlt, List.count_append, List.count_append, ih (Nat.le_of_lt hlt), hline]
    rfl

end Text

namespace Document

variable {d : Document} {r : Replacement}

/-! ### One request -/

/-- A document after a request, and why it refused it, if it did. -/
def replace (d : Document) (r : Replacement) : Document × Option DocumentError :=
  match d.replaceRange r.start r.stop r.text with
  | .ok d' => (d', none)
  | .error e => (d, some e)

theorem replace_of_fits (h : r.Fits d) :
    d.replace r = (atVersion (d.version + 1)
      (d.text.take r.start.toNat ++ r.text ++ d.text.drop r.stop.toNat), none) := by
  obtain ⟨hstart, hstop, hlength⟩ := h
  rw [replace, replaceRange, if_neg (by omega)]

/-- A request that is refused changes nothing. -/
theorem replace_of_not_fits (h : ¬r.Fits d) :
    d.replace r = (d, some (.invalidRange r.start r.stop d.length)) := by
  rw [Replacement.Fits] at h
  rw [replace, replaceRange, if_pos (by omega)]

/-! ### Several requests -/

/-- A document after several requests. -/
def afterAll (d : Document) (rs : List Replacement) : Document :=
  rs.foldl (fun d r => (d.replace r).1) d

/-- How many of several requests are granted. -/
def granted (d : Document) : List Replacement → Nat
  | [] => 0
  | r :: rs => (if (d.replace r).2 = none then 1 else 0) + granted (d.replace r).1 rs

theorem version_replace (d : Document) (r : Replacement) :
    (d.replace r).1.version = d.version + if (d.replace r).2 = none then 1 else 0 := by
  by_cases h : r.Fits d
  · rw [replace_of_fits h]
    rfl
  · rw [replace_of_not_fits h]
    rfl

/-- **The version** counts the requests that were granted. -/
theorem version_afterAll (d : Document) (rs : List Replacement) :
    (d.afterAll rs).version = d.version + d.granted rs := by
  induction rs generalizing d with
  | nil => rfl
  | cons r rs ih =>
    show ((d.replace r).1.afterAll rs).version = _
    rw [ih, version_replace, granted, Nat.add_assoc]

/-! ### Offsets and lines -/

/-- **An offset is held by the line** that as many line feeds precede. -/
theorem lineAt_eq_count (d : Document) (offset : Int) :
    d.lineAt offset = (d.text.take (d.clamp offset)).count lineFeed := by
  obtain ⟨k, hk, hline, hlo, hhi⟩ := d.exists_lineAt offset
  have habove : ((Text.above d.lines k) : Text).count lineFeed = k :=
    Text.count_above (fun l hl => not_mem_of_mem_lines hl) (Nat.le_of_lt hk)
  -- what stands in the line before the offset holds none
  have hnone : (d.lines[k].take (d.clamp offset - (Text.above d.lines k).length)).count lineFeed =
      0 := by
    apply List.count_eq_zero_of_not_mem
    intro hmem
    exact not_mem_of_mem_lines (List.getElem_mem hk) (List.mem_of_mem_take hmem)
  have htake : d.text.take (d.clamp offset) = Text.above d.lines k ++
      d.lines[k].take (d.clamp offset - (Text.above d.lines k).length) := by
    rw [text_eq_around d hk, List.append_assoc, List.take_append, List.take_of_length_le hlo,
      List.take_append_of_le_length (by omega)]
  rw [hline, htake, List.count_append, habove, hnone, Nat.add_zero]

/-- The nearest offset in the text is as far from the start of its line as its column tells. -/
theorem exists_lineStart_lineAt (d : Document) (offset : Int) :
    ∃ start, d.lineStart (d.lineAt offset) = .ok start ∧
      start + d.columnAt offset = d.clamp offset := by
  have hle : d.clamp offset ≤ d.text.length := Text.clamp_le_length d.text offset
  have hclamp : d.clamp (d.clamp offset : Int) = d.clamp offset := d.clamp_of_le hle
  obtain ⟨start, hstart, hcolumn, -⟩ := d.exists_lineStart_of_le hle
  -- lines and columns are those of the nearest offset in the text
  have hline : d.lineAt (d.clamp offset : Int) = d.lineAt offset := by
    rw [lineAt, lineAt, hclamp]
  have hcol : d.columnAt (d.clamp offset : Int) = d.columnAt offset := by
    rw [columnAt, columnAt, hclamp, hline]
  rw [hline] at hstart
  rw [hcol] at hcolumn
  exact ⟨start, hstart, hcolumn⟩

theorem lineStart_cases (d : Document) (line : Int) :
    (∃ k : Nat, k < d.lines.length ∧ line = k ∧
        d.lineStart line = .ok (Text.above d.lines k).length) ∨
      (line < 0 ∨ d.lineCount ≤ line) ∧
        d.lineStart line = .error (.lineOutOfRange line (d.lineCount - 1)) := by
  by_cases hout : line < 0 ∨ d.lineCount ≤ line
  · refine .inr ⟨hout, ?_⟩
    rw [lineCount_eq] at hout ⊢
    exact d.lineStart_of_not hout
  · obtain ⟨k, rfl⟩ := Int.eq_ofNat_of_zero_le (by omega : 0 ≤ line)
    have hk : k < d.lines.length := by
      rw [lineCount_eq] at hout
      omega
    exact .inl ⟨k, hk, rfl, d.lineStart_of_lt hk⟩

/-- **The start of a line** lies in that line. -/
theorem lineAt_of_lineStart {line start : Int} (h : d.lineStart line = .ok start) :
    d.lineAt start = line := by
  rcases d.lineStart_cases line with ⟨k, hk, rfl, hstart⟩ | ⟨-, herror⟩
  · rw [hstart] at h
    cases h
    exact d.lineAt_of_le hk (Nat.le_refl _) (Nat.le_add_right ..)
  · rw [herror] at h
    cases h

/-! ### Lines and their ends -/

/-- The lines of a document with their ends: after each line but the last there is a line feed. -/
def pieces (d : Document) : List (Text × Text) :=
  (d.lines.dropLast.map fun l => (dropFinalReturn l, l.lineEnd ++ [lineFeed])) ++
    d.lines.getLast?.toList.map fun l => (dropFinalReturn l, l.lineEnd)

theorem exists_lines_eq_concat (d : Document) :
    ∃ init last, d.lines = init ++ [last] ∧
      d.pieces = (init.map fun l => (dropFinalReturn l, l.lineEnd ++ [lineFeed])) ++
        [(dropFinalReturn last, last.lineEnd)] := by
  have hlines := List.dropLast_concat_getLast d.lines_ne_nil
  generalize d.lines.dropLast = init, d.lines.getLast d.lines_ne_nil = last at hlines
  refine ⟨init, last, hlines.symm, ?_⟩
  simp [pieces, ← hlines]

/-- **The lines and their ends** make up the text. -/
theorem text_eq_pieces (d : Document) : d.text = d.pieces.flatMap fun p => p.1 ++ p.2 := by
  obtain ⟨init, last, hlines, hpieces⟩ := d.exists_lines_eq_concat
  have hk : init.length < d.lines.length := by simp [hlines]
  have habove : Text.above d.lines init.length = init.flatMap fun l => l ++ [lineFeed] := by
    simp [Text.above, hlines]
  have hline : d.lines[init.length] = last := by simp [hlines]
  have hbelow : Text.below d.lines init.length = [] := by simp [Text.below, hlines]
  rw [d.text_eq_around hk, habove, hline, hbelow, hpieces, List.append_nil, List.flatMap_append,
    List.flatMap_map, List.flatMap_singleton, Text.dropFinalReturn_append_lineEnd]
  congr 1
  refine congrArg (init.flatMap ·) (funext fun l => ?_)
  rw [← List.append_assoc, Text.dropFinalReturn_append_lineEnd]

theorem length_pieces (d : Document) : (d.pieces.length : Int) = d.lineCount := by
  obtain ⟨init, last, hlines, hpieces⟩ := d.exists_lines_eq_concat
  simp [hlines, hpieces]

/-- The text of a line holds no line feed. -/
theorem lineText_spec (d : Document) {k : Nat} (hk : k < d.lines.length) :
    d.lineText k = .ok (dropFinalReturn d.lines[k]) ∧ lineFeed ∉ dropFinalReturn d.lines[k] := by
  refine ⟨d.lineText_of_lt hk, fun hmem => ?_⟩
  apply not_mem_of_mem_lines (List.getElem_mem hk)
  rw [← Text.dropFinalReturn_append_lineEnd d.lines[k]]
  exact List.mem_append_left _ hmem

/-- **A line and its end**: a line feed, or nothing after the last line, perhaps with a carriage
return before it. -/
theorem pieces_spec (d : Document) {k : Nat} {p : Text × Text} (hp : d.pieces[k]? = some p) :
    d.lineText k = .ok p.1 ∧ lineFeed ∉ p.1 ∧
      if k + 1 < d.lineCount then p.2 = [lineFeed] ∨ p.2 = [carriageReturn, lineFeed]
      else p.2 = [] ∨ p.2 = [carriageReturn] := by
  obtain ⟨init, last, hlines, hpieces⟩ := d.exists_lines_eq_concat
  have hlength : d.lines.length = init.length + 1 := by simp [hlines]
  rw [hpieces] at hp
  rcases Nat.lt_trichotomy k init.length with hlt | rfl | hgt
  · -- a line before the last one
    have hk : k < d.lines.length := by omega
    have hline : d.lines[k] = init[k] := by simp [hlines, hlt]
    obtain rfl : (dropFinalReturn d.lines[k], d.lines[k].lineEnd ++ [lineFeed]) = p := by
      simpa [List.getElem?_append_left, hlt, hline] using hp
    rw [lineCount_eq, if_pos (by omega)]
    refine ⟨(d.lineText_spec hk).1, (d.lineText_spec hk).2, ?_⟩
    rcases d.lines[k].lineEnd_eq_nil_or with h | h
    · exact .inl (by rw [h]; rfl)
    · exact .inr (by rw [h]; rfl)
  · have hk : init.length < d.lines.length := by omega
    have hline : d.lines[init.length] = last := by simp [hlines]
    obtain rfl : (dropFinalReturn d.lines[init.length], d.lines[init.length].lineEnd) = p := by
      simpa [hline] using hp
    rw [lineCount_eq, if_neg (by omega)]
    exact ⟨(d.lineText_spec hk).1, (d.lineText_spec hk).2, d.lines[init.length].lineEnd_eq_nil_or⟩
  · rw [List.getElem?_eq_none (by simp; omega)] at hp
    cases hp

/-! ### All of it together -/

/-- **A document after any history** of requests.

A request is refused if its offsets delimit no part of the text, and then nothing changes; otherwise
the text between them is replaced and the version grows by one. The line of an offset and its
distance from the start of that line are those of the nearest offset in the text, and the line is
the one that as many line feeds precede. The start of a line lies in that line, and lines outside
the document have no start. The texts of the lines hold no line feeds; with line feeds between
them, and perhaps carriage returns before these and at the end, they make up the text. -/
theorem lines_after_history (t : Text) (rs : List Replacement) :
    let d := (ofText t).afterAll rs
    d.version = 1 + (ofText t).granted rs ∧
    (∀ r : Replacement, (r.start < 0 ∨ r.stop < r.start ∨ d.length < r.stop) →
      d.replace r = (d, some (.invalidRange r.start r.stop d.length))) ∧
    (∀ r : Replacement, ¬(r.start < 0 ∨ r.stop < r.start ∨ d.length < r.stop) →
      (d.replace r).2 = none ∧ (d.replace r).1.version = d.version + 1 ∧
      (d.replace r).1.text =
        d.text.take r.start.toNat ++ r.text ++ d.text.drop r.stop.toNat) ∧
    (∀ offset : Int,
      let place := max 0 (min offset d.length)
      (∃ start, d.lineStart (d.lineAt offset) = .ok start ∧ start + d.columnAt offset = place) ∧
      d.lineAt offset = (d.text.take place.toNat).count lineFeed) ∧
    (∀ line start, d.lineStart line = .ok start → d.lineAt start = line) ∧
    (∀ line, (∃ e, d.lineStart line = .error e) ↔ ¬(0 ≤ line ∧ line ≤ d.lineCount - 1)) ∧
    ∃ pieces : List (Text × Text), pieces.length = d.lineCount ∧
      d.text = (pieces.flatMap fun p => p.1 ++ p.2) ∧
      ∀ (k : Nat) p, pieces[k]? = some p → d.lineText k = .ok p.1 ∧ lineFeed ∉ p.1 ∧
        if k + 1 < d.lineCount then p.2 = [lineFeed] ∨ p.2 = [carriageReturn, lineFeed]
        else p.2 = [] ∨ p.2 = [carriageReturn] := by
  intro d
  refine ⟨version_afterAll (ofText t) rs, fun r hr => ?_, fun r hr => ?_, fun offset => ?_,
    fun line start => lineAt_of_lineStart, fun line => ?_, d.pieces, d.length_pieces,
    d.text_eq_pieces, fun k p => d.pieces_spec⟩
  · exact replace_of_not_fits fun hfits => by
      rw [Replacement.Fits] at hfits
      omega
  · have hfits : r.Fits d := by
      rw [Replacement.Fits]
      omega
    rw [replace_of_fits hfits]
    exact ⟨rfl, rfl, rfl⟩
  · have hplace : max 0 (min offset d.length) = (d.clamp offset : Int) := by
      rw [clamp, length]
      omega
    simp only [hplace, Int.toNat_natCast]
    exact ⟨d.exists_lineStart_lineAt offset, d.lineAt_eq_count offset⟩
  · rcases d.lineStart_cases line with ⟨k, hk, rfl, hstart⟩ | ⟨hout, herror⟩
    · rw [hstart, lineCount_eq]
      exact iff_of_false nofun (by omega)
    · rw [herror]
      exact iff_of_true ⟨_, rfl⟩ (by omega)

end Document

end SexpEditing
