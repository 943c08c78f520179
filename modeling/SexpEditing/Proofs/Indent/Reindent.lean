import SexpEditing.Proofs.Document.Lines
import SexpEditing.Proofs.Token.Blanks
import SexpEditing.Proofs.Token.LineStart

/-!
# Documents that differ in blanks

Indenting replaces leading blanks, and leaves alone the lines that start inside strings and
comments. Whatever lines are indented, in whatever order, the lines that start inside something stay
the same ones. The significant tokens stay too, but for one kind of line: an atom may take in an
escaped line break and go on with the next line, and there it matters whether the line has blanks.

## Main definitions

* `Document.StartsInside`: a line starts inside a string or a comment
* `Document.Joined`: an atom could go on with a line
* `Document.Reindents`: a document differs from another by blanks that are no part of its tokens

## Main results

* `Document.Reindents.startsInside_iff`: the same lines start inside something
* `Document.Reindents.significant_eq_iff`: exactly when the significant tokens stay
-/

namespace SexpEditing

open CodeUnit

namespace Text

theorem endsLine_above (ls : List Text) (k : Nat) : EndsLine (above ls k) := by
  rcases above_eq_nil_or_ends ls k with h | ⟨s, h⟩
  · exact .inl h
  · exact .inr (by rw [h, List.getLast?_concat])

theorem all_isSpace_blanks (l : Text) : l.blanks.all isSpace := by
  rw [List.all_eq_true]
  exact fun c hc => isSpace_of_isIndentation (isIndentation_of_mem_blanks hc)

/-- The text above the next line. -/
theorem above_succ_eq {ls : List Text} {k : Nat} (hk : k < ls.length) :
    above ls (k + 1) = above ls k ++ (ls[k].blanks ++ (ls[k].body ++ [lineFeed])) := by
  rw [above_succ hk, ← List.append_assoc _ _ [lineFeed], blanks_append_body, List.append_assoc]

theorem below_eq_nil_or_begins (ls : List Text) (k : Nat) :
    below ls k = [] ∨ ∃ s, below ls k = lineFeed :: s := by
  rw [below]
  cases ls.drop (k + 1) with
  | nil => exact .inl rfl
  | cons l rest => exact .inr ⟨_, rfl⟩

/-- Whether an atom could go on with a line does not depend on the lines below. -/
theorem atomTail_append_eq_nil_iff (t : Text) {r : Text} (hr : r = [] ∨ ∃ s, r = lineFeed :: s) :
    (atomTail (t ++ r)).1 = [] ↔ (atomTail t).1 = [] := by
  cases t with
  | nil =>
    refine iff_of_true ?_ (congrArg Prod.fst atomTail_nil)
    rcases hr with rfl | ⟨s, rfl⟩
    · exact congrArg Prod.fst atomTail_nil
    · exact congrArg Prod.fst (atomTail_of_isSpace rfl s)
  | cons c t =>
    -- the first two units decide, and a line feed is none that matters
    have hstar (r' : Text) : t ++ r = asterisk :: r' → ∃ s, t = asterisk :: s := by
      intro h
      cases t with
      | nil =>
        rcases hr with rfl | ⟨s, rfl⟩
        · cases h
        · cases h
      | cons d t =>
        cases h
        exact ⟨t, rfl⟩
    rw [← Decidable.not_iff_not, List.cons_append]
    constructor
    · intro h
      obtain ⟨hc, hs⟩ := of_atomTail_ne_nil h
      refine atomTail_ne_nil (by simpa [or_assoc] using hc) ?_
      rintro r' hc rfl
      exact hs _ hc rfl
    · intro h
      obtain ⟨hc, hs⟩ := of_atomTail_ne_nil h
      refine atomTail_ne_nil (by simpa [or_assoc] using hc) ?_
      intro r' hc hr'
      obtain ⟨s, rfl⟩ := hstar r' hr'
      exact hs s hc rfl

theorem below_last {ls : List Text} {n : Nat} (hn : ls.length = n + 1) : below ls n = [] := by
  rw [below, List.drop_eq_nil_of_le (by omega)]
  rfl

end Text

namespace Document

/-- A line starts inside a string or a block comment. -/
def StartsInside (d : Document) (line : Nat) : Prop :=
  Unfinished (pending (Text.above d.lines line))

/-- A line begins with no blanks. -/
def Flush (d : Document) (line : Nat) : Prop := ∃ l, d.lines[line]? = some l ∧ l.blanks = []

/-- An atom takes in the line break before a line, and the first unit of the line that is no blank
may stand in an atom, so that the atom goes on if the line begins with no blanks. -/
def Joined (d : Document) (line : Nat) : Prop :=
  ∃ l start, d.lines[line]? = some l ∧ (atomTail l.body).1 ≠ [] ∧ d.lineStart line = .ok start ∧
    ∃ t ∈ tokenize d.text, t.kind = .atom ∧ t.start < start ∧ start ≤ t.stop

/-- A document differs from another by the leading blanks of lines that do not start inside a string
or a comment. -/
structure Reindents (d d' : Document) : Prop where
  bodies_eq : d'.lines.map Text.body = d.lines.map Text.body
  inside_eq : ∀ line, d.StartsInside line → d'.lines[line]? = d.lines[line]?

/-- The text around the blanks of a line. -/
theorem text_eq_blanks_body (d : Document) {k : Nat} (hk : k < d.lines.length) :
    d.text = Text.above d.lines k ++
      (d.lines[k].blanks ++ (d.lines[k].body ++ Text.below d.lines k)) := by
  rw [← List.append_assoc d.lines[k].blanks, Text.blanks_append_body, ← List.append_assoc,
    ← text_eq_around d hk]

theorem flush_iff {d : Document} {k : Nat} (hk : k < d.lines.length) :
    d.Flush k ↔ d.lines[k].blanks = [] := by
  simp [Flush, hk]

theorem Joined.lt_length {d : Document} {line : Nat} (h : d.Joined line) :
    line < d.lines.length := by
  obtain ⟨l, -, hl, -⟩ := h
  exact (List.getElem?_eq_some_iff.mp hl).1

theorem joined_iff {d : Document} {k : Nat} (hk : k < d.lines.length) :
    d.Joined k ↔
      AtomSoFar (pending (Text.above d.lines k)) ∧ (atomTail d.lines[k].body).1 ≠ [] := by
  have htext : d.text = Text.above d.lines k ++ (d.lines[k] ++ Text.below d.lines k) := by
    rw [← List.append_assoc, ← text_eq_around d hk]
  rw [← exists_atom_across_iff (Text.endsLine_above d.lines k)
    (d.lines[k] ++ Text.below d.lines k), ← htext, Joined]
  constructor
  · rintro ⟨l, start, hl, hbody, hstart, hatom⟩
    rw [List.getElem?_eq_getElem hk] at hl
    cases hl
    rw [lineStart_of_lt d hk] at hstart
    cases hstart
    exact ⟨hatom, hbody⟩
  · rintro ⟨hatom, hbody⟩
    exact ⟨_, _, List.getElem?_eq_getElem hk, hbody, lineStart_of_lt d hk, hatom⟩

namespace Reindents

variable {d d' : Document}

theorem refl (d : Document) : d.Reindents d := ⟨rfl, fun _ _ => rfl⟩

section

variable (h : d.Reindents d')
include h

theorem length_eq : d'.lines.length = d.lines.length := by
  have := congrArg List.length h.bodies_eq
  simpa using this

theorem lt_length {k : Nat} (hk : k < d.lines.length) : k < d'.lines.length := by
  rw [h.length_eq]
  exact hk

theorem body_eq {k : Nat} (hk : k < d.lines.length) (hk' : k < d'.lines.length) :
    d'.lines[k].body = d.lines[k].body := by
  have := congrArg (·[k]?) h.bodies_eq
  simpa [hk, hk'] using this

theorem blanks_eq {k : Nat} (hk : k < d.lines.length) (hk' : k < d'.lines.length)
    (hin : d.StartsInside k) : d'.lines[k].blanks = d.lines[k].blanks := by
  have := h.inside_eq k hin
  rw [List.getElem?_eq_getElem hk, List.getElem?_eq_getElem hk'] at this
  rw [Option.some.inj this]

/-- Above each line, the documents go on alike. -/
theorem alike {k : Nat} (hk : k ≤ d.lines.length) :
    Alike (pending (Text.above d.lines k)) (pending (Text.above d'.lines k)) := by
  induction k with
  | zero => exact .refl _
  | succ k ih =>
    have hk' := h.lt_length hk
    rw [Text.above_succ_eq hk, Text.above_succ_eq hk', h.body_eq hk hk']
    refine (ih (Nat.le_of_lt hk)).append (Text.endsLine_above _ k) (Text.all_isSpace_blanks _)
      (Text.all_isSpace_blanks _) (fun hin => (h.blanks_eq hk hk' hin).symm) ?_
    rw [List.getLast?_concat]

/-- **The same lines start inside** strings and comments. -/
theorem startsInside_iff {k : Nat} (hk : k ≤ d.lines.length) :
    d'.StartsInside k ↔ d.StartsInside k :=
  (h.alike hk).unfinished_iff.symm

/-- Where no atom went on or stopped going on, the texts above a line agree. -/
theorem agree {k : Nat} (hk : k ≤ d.lines.length)
    (hjoined : ∀ j < k, d.Joined j → (d.Flush j ↔ d'.Flush j)) :
    Agree (Text.above d.lines k) (Text.above d'.lines k) := by
  induction k with
  | zero => exact Agree.refl _
  | succ k ih =>
    have hk' := h.lt_length hk
    have hflush := hjoined k (Nat.lt_succ_self k)
    rw [joined_iff hk, flush_iff hk, flush_iff hk'] at hflush
    rw [Text.above_succ_eq hk, Text.above_succ_eq hk', h.body_eq hk hk']
    refine (ih (Nat.le_of_lt hk) fun j hj => hjoined j (Nat.lt_succ_of_lt hj)).append
      (Text.endsLine_above _ k) (Text.all_isSpace_blanks _) (Text.all_isSpace_blanks _)
      (fun hin => (h.blanks_eq hk hk' hin).symm) fun hatom => ⟨?_, by simp⟩
    rw [Text.atomTail_append_eq_nil_iff _ (.inr ⟨[], rfl⟩)]
    by_cases hbody : (atomTail d.lines[k].body).1 = []
    · exact .inr hbody
    · exact .inl (hflush ⟨hatom, hbody⟩)

/-- The significant tokens stay where no atom went on or stopped going on. -/
theorem significant_eq (hjoined : ∀ line, d.Joined line → (d.Flush line ↔ d'.Flush line)) :
    Lexeme.significant (lexemes d'.text) = Lexeme.significant (lexemes d.text) := by
  -- the last line is what follows the text above it
  obtain ⟨n, hn⟩ : ∃ n, d.lines.length = n + 1 :=
    ⟨d.lines.length - 1, by have := List.length_pos_iff.mpr d.lines_ne_nil; omega⟩
  have hk : n < d.lines.length := by omega
  have hk' := h.lt_length hk
  have hflush := hjoined n
  rw [joined_iff hk, flush_iff hk, flush_iff hk'] at hflush
  have hagree := h.agree (Nat.le_of_lt hk) fun j _ => hjoined j
  rw [text_eq_blanks_body d hk, text_eq_blanks_body d' hk', h.body_eq hk hk',
    Text.below_last hn, Text.below_last (h.length_eq.trans hn), List.append_nil]
  refine (hagree.significant_append (Text.endsLine_above _ n) (Text.all_isSpace_blanks _)
    (Text.all_isSpace_blanks _) (fun hin => (h.blanks_eq hk hk' hin).symm) fun hatom => ?_).symm
  by_cases hbody : (atomTail d.lines[n].body).1 = []
  · exact .inr hbody
  · exact .inl (hflush ⟨hatom, hbody⟩)

/-- The significant tokens change with the first atom that goes on, or stops going on. -/
theorem significant_ne {k : Nat} (hk : k < d.lines.length) (hjoined : d.Joined k)
    (hflush : ¬ (d.Flush k ↔ d'.Flush k))
    (hagree : Agree (Text.above d.lines k) (Text.above d'.lines k)) :
    Lexeme.significant (lexemes d'.text) ≠ Lexeme.significant (lexemes d.text) := by
  have hk' := h.lt_length hk
  rw [joined_iff hk] at hjoined
  obtain ⟨hatom, hbody⟩ := hjoined
  rw [flush_iff hk, flush_iff hk'] at hflush
  have hgoes (r : List Text) : (atomTail (d.lines[k].body ++ Text.below r k)).1 ≠ [] := by
    intro hnil
    exact hbody ((Text.atomTail_append_eq_nil_iff _ (Text.below_eq_nil_or_begins r k)).mp hnil)
  rw [text_eq_blanks_body d hk, text_eq_blanks_body d' hk', h.body_eq hk hk']
  by_cases hb : d.lines[k].blanks = []
  · have hb' : d'.lines[k].blanks ≠ [] := fun hb' => hflush (iff_of_true hb hb')
    rw [hb, List.nil_append]
    exact (hagree.significant_ne hatom (Text.all_isSpace_blanks _) hb' (hgoes _) _).symm
  · have hb' : d'.lines[k].blanks = [] :=
      Decidable.of_not_not fun hb' => hflush (iff_of_false hb hb')
    have hatom' : AtomSoFar (pending (Text.above d'.lines k)) := by
      rcases hagree.pending_cases (Text.endsLine_above _ k) with ⟨hp, -⟩ | ⟨hp, -⟩
      · exact absurd hp hatom.not_all_isSpace
      · rwa [← hp]
    rw [hb', List.nil_append]
    exact hagree.symm.significant_ne hatom' (Text.all_isSpace_blanks _) hb (hgoes _) _

/-- **The significant tokens stay** exactly if no atom goes on that did not, and none stops going
on, at the start of a line. -/
theorem significant_eq_iff :
    (significantTokens d'.text).map Token.toLexeme =
        (significantTokens d.text).map Token.toLexeme ↔
      ∀ line, d.Joined line → (d.Flush line ↔ d'.Flush line) := by
  rw [map_toLexeme_significantTokens, map_toLexeme_significantTokens]
  refine ⟨fun heq line => ?_, h.significant_eq⟩
  induction line using Nat.strongRecOn with
  | _ k ih =>
    intro hjoined
    have hk := hjoined.lt_length
    apply Classical.byContradiction
    intro hflush
    exact h.significant_ne hk hjoined hflush (h.agree (Nat.le_of_lt hk) ih) heq

end

/-- Reindenting twice is reindenting. -/
theorem trans {d'' : Document} (h : d.Reindents d') (h' : d'.Reindents d'') : d.Reindents d'' := by
  refine ⟨h'.bodies_eq.trans h.bodies_eq, fun line hin => ?_⟩
  by_cases hline : line ≤ d.lines.length
  · rw [h'.inside_eq line ((h.startsInside_iff hline).mpr hin), h.inside_eq line hin]
  · have hlen := h.length_eq
    have hlen' := h'.length_eq
    rw [List.getElem?_eq_none (by omega), List.getElem?_eq_none (by omega)]

/-- Indenting a line that does not start inside anything. -/
theorem of_setLineIndentation {k : Nat} (hk : k < d.lines.length) (hin : ¬ d.StartsInside k)
    {column : Int} {changed : Bool} (h : d.setLineIndentation k column = .ok (d', changed)) :
    d.Reindents d' := by
  rw [setLineIndentation_of_lt d hk] at h
  split at h
  · cases h
    exact refl d
  · cases h
    have hlines : (d.setLine k (d.lines[k].indented column)).lines =
        d.lines.set k (d.lines[k].indented column) :=
      lines_setLine (not_mem_indented (not_mem_of_mem_lines (List.getElem_mem hk)) column)
    constructor
    · rw [hlines, List.map_set, Text.body_indented]
      apply List.ext_getElem (by simp)
      intro i hi hi'
      rw [List.getElem_set]
      split
      · next hki => simp [hki]
      · rfl
    · intro line hline
      have hne : k ≠ line := by
        rintro rfl
        exact hin hline
      rw [hlines, List.getElem?_set_ne hne]

end Reindents

end Document

end SexpEditing
