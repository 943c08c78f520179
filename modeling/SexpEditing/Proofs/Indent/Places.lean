import SexpEditing.Proofs.Indent.Edits
import SexpEditing.Proofs.Token.Shift

/-!
# Where tokens stand after indenting

Indenting a line moves the tokens of that line, and all that comes after them in the text. Seen from
their lines the tokens stay: each of them is on the same line as before, and as far behind the
blanks. This holds as long as no atom goes on with the line, where the blanks decide what is a
token.

## Main definitions

* `Document.AtomsInLines`: no atom holds a line feed
* `Document.placed`: the significant tokens of a document, seen from their lines

## Main results

* `Document.significantTokens_eq_of_not_joined`: the tokens above a line, and from the line on
* `Document.placed_eq_of_set`: indenting a line leaves the tokens in their places
* `Document.countBefore_eq_of_placed_eq`: as many tokens come before a place in a line
-/

namespace SexpEditing

open CodeUnit Token

theorem Text.length_above_set {ls : List Text} {m j : Nat} (hm : m < ls.length) (hmj : m < j)
    (hj : j ≤ ls.length) (l : Text) :
    (above (ls.set m l) j).length + ls[m].length =
      (above ls j).length + l.length := by
  induction j with
  | zero => omega
  | succ j ih =>
    have hset : j < (ls.set m l).length := by
      rw [List.length_set]
      exact hj
    rw [above_succ hset, above_succ hj, List.getElem_set]
    simp only [List.length_append, List.length_singleton]
    rcases Nat.lt_or_eq_of_le (Nat.lt_succ_iff.mp hmj) with hlt | rfl
    · have := ih hlt (by omega)
      rw [if_neg (by omega)]
      omega
    · -- the replaced line is the last one above
      rw [if_pos rfl, above_set_of_le (Nat.le_refl m)]
      omega

/-- A significant token starts in the text, and before its end. -/
theorem exists_start_lt_of_mem_significantTokens {t : Text} {u : Token}
    (hu : u ∈ significantTokens t) : ∃ n : Nat, u.start = n ∧ n < t.length := by
  obtain ⟨before, after, htext, hstart, hstop⟩ :=
    exists_around_of_mem_tokenize (List.mem_filter.mp hu).1
  have hlt := (ordered_significantTokens t).start_lt_stop u hu
  refine ⟨before.length, hstart, ?_⟩
  rw [htext]
  simp only [List.length_append]
  omega

theorem exists_start_of_mem_significantTokens {t : Text} {u : Token}
    (hu : u ∈ significantTokens t) : ∃ n : Nat, u.start = n ∧ n ≤ t.length := by
  obtain ⟨n, hn, hlt⟩ := exists_start_lt_of_mem_significantTokens hu
  exact ⟨n, hn, Nat.le_of_lt hlt⟩

namespace Document

/-- No atom reaches from one line into the next. -/
def AtomsInLines (d : Document) : Prop :=
  ∀ t ∈ tokenize d.text, t.kind = .atom → lineFeed ∉ t.text

theorem bodyStart_eq (d : Document) {k : Nat} (hk : k < d.lines.length) :
    d.bodyStart k = (Text.above d.lines k).length + d.lines[k].blanks.length := by
  rw [bodyStart, List.getElem?_eq_getElem hk, Option.getD_some]

theorem bodyStart_add_length (d : Document) {k : Nat} (hk : k < d.lines.length) :
    d.bodyStart k + d.lines[k].body.length = (Text.above d.lines k).length + d.lines[k].length := by
  have hsplit := congrArg List.length (Text.blanks_append_body d.lines[k])
  rw [List.length_append] at hsplit
  rw [bodyStart_eq d hk]
  omega

/-- **The tokens above a line, and from the line on.** -/
theorem significantTokens_eq_of_not_joined (d : Document) {k : Nat} (hk : k < d.lines.length)
    (hin : ¬ d.StartsInside k) (hjoined : ¬ d.Joined k) :
    significantTokens d.text = significantTokens (Text.above d.lines k) ++
      significantFrom (d.bodyStart k) (d.lines[k].body ++ Text.below d.lines k) := by
  have happend := significantTokens_append_of_endsLine (Text.endsLine_above d.lines k) hin
    (Text.all_isSpace_blanks d.lines[k]) (x := d.lines[k].body ++ Text.below d.lines k) ?_
  · rw [← text_eq_blanks_body d hk] at happend
    rw [happend, bodyStart_eq d hk]
  · intro hatom
    rw [Text.atomTail_append_eq_nil_iff _ (Text.below_eq_nil_or_begins d.lines k)]
    exact Decidable.of_not_not fun hbody => hjoined ((joined_iff hk).mpr ⟨hatom, hbody⟩)

namespace AtomsInLines

variable {d d' : Document} (h : d.AtomsInLines)
include h

theorem not_atomSoFar {k : Nat} (hk : k < d.lines.length) :
    ¬ AtomSoFar (pending (Text.above d.lines k)) := by
  intro hp
  obtain ⟨t, ht, hkind, hfeed, -⟩ := hp.exists_atom (d.lines[k] ++ Text.below d.lines k)
  rw [← List.append_assoc, ← d.text_eq_around hk] at ht
  exact h t ht hkind hfeed

theorem not_joined (line : Nat) : ¬ d.Joined line := by
  intro hjoined
  have hk := hjoined.lt_length
  exact h.not_atomSoFar hk ((joined_iff hk).mp hjoined).1

/-- Outside strings and comments nothing but white space is pending. -/
theorem pending_isSpace {k : Nat} (hk : k < d.lines.length) (hin : ¬ d.StartsInside k) :
    (pending (Text.above d.lines k)).all isSpace := by
  rcases pending_cases (Text.endsLine_above d.lines k) with hp | hp | hp
  · exact hp
  · exact absurd hp (h.not_atomSoFar hk)
  · exact absurd hp hin

theorem map_toLexeme_eq (hd : d.Reindents d') :
    (significantTokens d'.text).map Token.toLexeme =
      (significantTokens d.text).map Token.toLexeme :=
  hd.significant_eq_iff.mpr fun line hjoined => absurd hjoined (h.not_joined line)

theorem of_reindents (hd : d.Reindents d') : d'.AtomsInLines := by
  intro t ht hkind
  have hsig : t ∈ significantTokens d'.text := by
    rw [significantTokens, List.mem_filter]
    exact ⟨ht, by simp [Token.isTrivia, hkind, TokenKind.isTrivia]⟩
  have hlexeme := List.mem_map_of_mem (f := Token.toLexeme) hsig
  rw [h.map_toLexeme_eq hd] at hlexeme
  obtain ⟨u, hu, hut⟩ := List.mem_map.mp hlexeme
  have := h u (List.mem_filter.mp hu).1 (by rw [hut, hkind])
  rwa [hut] at this

/-- Every token that starts above a line ends above it. -/
theorem countEnded_bodyStart {k : Nat} (hk : k < d.lines.length) (hin : ¬ d.StartsInside k) :
    countEnded (significantTokens d.text) (d.bodyStart k) =
        countBefore (significantTokens d.text) (d.bodyStart k) ∧
      countEnded (significantTokens d.text) (d.bodyStart k - 1) =
        countBefore (significantTokens d.text) (d.bodyStart k) := by
  have hordered := ordered_significantTokens d.text
  have hbody := bodyStart_eq d hk
  rw [d.significantTokens_eq_of_not_joined hk hin (h.not_joined k)] at hordered ⊢
  generalize hback : significantFrom (d.bodyStart k) _ = back at hordered ⊢
  have hfront {t : Token} (ht : t ∈ significantTokens (Text.above d.lines k)) :
      t.start < t.stop ∧ t.stop ≤ d.bodyStart k - 1 := by
    have hstop := stop_lt_of_mem_significantTokens (Text.endsLine_above d.lines k)
      (h.pending_isSpace hk hin) ht
    have hstart := hordered.start_lt_stop t (List.mem_append_left _ ht)
    omega
  have hrest {t : Token} (ht : t ∈ back) : d.bodyStart k ≤ t.start ∧ t.start < t.stop := by
    have hstart := hordered.start_lt_stop t (List.mem_append_right _ ht)
    rw [← hback] at ht
    exact ⟨le_start_of_mem_significantFrom ht, hstart⟩
  -- the three counts decide alike about each token
  constructor
  · apply List.countP_congr
    intro t ht
    simp only [decide_eq_true_eq]
    rcases List.mem_append.mp ht with ht | ht
    · have := hfront ht
      omega
    · have := hrest ht
      omega
  · apply List.countP_congr
    intro t ht
    simp only [decide_eq_true_eq]
    rcases List.mem_append.mp ht with ht | ht
    · have := hfront ht
      omega
    · have := hrest ht
      omega

end AtomsInLines

/-! ### Places -/

/-- An offset seen from its line: the line, and the distance from the first unit of the line that is
no blank. -/
def placeOf (d : Document) (offset : Int) : Int × Int :=
  (d.lineAt offset, offset - d.bodyStart (d.lineAt offset).toNat)

/-- The significant tokens, seen from their lines. -/
def placed (d : Document) : List (Lexeme × Int × Int) :=
  (significantTokens d.text).map fun t => (t.toLexeme, d.placeOf t.start)

theorem placeOf_of_le (d : Document) {k offset : Nat} (hk : k < d.lines.length)
    (hlo : (Text.above d.lines k).length ≤ offset)
    (hhi : offset ≤ (Text.above d.lines k).length + d.lines[k].length) :
    d.placeOf offset = ((k : Int), offset - d.bodyStart k) := by
  rw [placeOf, d.lineAt_of_le hk hlo hhi, Int.toNat_natCast]

/-- Every offset of the text has its place in a line. -/
theorem exists_placeOf (d : Document) {offset : Nat} (h : offset ≤ d.text.length) :
    ∃ k, ∃ hk : k < d.lines.length, d.placeOf offset = ((k : Int), offset - d.bodyStart k) ∧
      (Text.above d.lines k).length ≤ offset ∧
      offset ≤ (Text.above d.lines k).length + d.lines[k].length := by
  obtain ⟨k, hk, -, hlo, hhi⟩ := d.exists_lineAt offset
  rw [clamp_of_le d h] at hlo hhi
  exact ⟨k, hk, d.placeOf_of_le hk hlo hhi, hlo, hhi⟩

section Set

variable {d d' : Document} {m : Nat} (hm : m < d.lines.length) {l : Text}
  (hlines : d'.lines = d.lines.set m l)
include hm hlines

/-- Above a line that is replaced, every offset keeps its place. -/
theorem placeOf_set_of_lt {offset : Nat} (hlt : offset < (Text.above d.lines m).length) :
    d'.placeOf offset = d.placeOf offset := by
  have hle := d.length_above_add_le hm
  have hoffset : offset ≤ d.text.length := by omega
  obtain ⟨k, hk, hplace, hlo, hhi⟩ := d.exists_placeOf hoffset
  -- the line of the offset is further up, for no line reaches into the next
  have hkm : k < m := Nat.lt_of_not_le fun hmk => by
    rcases Nat.lt_or_eq_of_le hmk with hmk | rfl
    · have := Text.length_above_lt hmk (Nat.le_of_lt hk)
      omega
    · omega
  have hk' : k < d'.lines.length := by
    rw [hlines, List.length_set]
    exact hk
  have habove : Text.above d'.lines k = Text.above d.lines k := by
    rw [hlines, Text.above_set_of_le (Nat.le_of_lt hkm)]
  have hline : d'.lines[k] = d.lines[k] := by
    simp only [hlines]
    exact List.getElem_set_ne (by omega) _
  rw [hplace, d'.placeOf_of_le hk' (by rw [habove]; exact hlo) (by rw [habove, hline]; exact hhi),
    bodyStart_eq d' hk', bodyStart_eq d hk, habove, hline]

/-- From the first unit of the line on that is no blank, every offset is moved by the same distance
and keeps its place. -/
theorem placeOf_set_of_le (hbody : l.body = d.lines[m].body) {offset : Nat}
    (hlo : d.bodyStart m ≤ offset) (hhi : offset ≤ d.text.length) :
    d'.placeOf (offset + (d'.bodyStart m - d.bodyStart m)) = d.placeOf offset := by
  have hlen : d'.lines.length = d.lines.length := by rw [hlines, List.length_set]
  have hm' : m < d'.lines.length := by omega
  have hbody₀ := bodyStart_eq d hm
  have hbody₁ := bodyStart_eq d' hm'
  have hlength₀ := congrArg List.length (Text.blanks_append_body d.lines[m])
  have hlength₁ := congrArg List.length (Text.blanks_append_body l)
  rw [List.length_append] at hlength₀ hlength₁
  rw [hbody] at hlength₁
  have hline₁ : d'.lines[m] = l := by simp [hlines]
  have habove₁ : Text.above d'.lines m = Text.above d.lines m := by
    rw [hlines, Text.above_set_of_le (Nat.le_refl m)]
  rw [hline₁, habove₁] at hbody₁
  obtain ⟨k, hk, hplace, hlok, hhik⟩ := d.exists_placeOf hhi
  have hmk : m ≤ k := Nat.le_of_not_lt fun hkm => by
    have := Text.length_above_lt hkm (Nat.le_of_lt hm)
    omega
  -- the shift can be negative, but leads to an offset of the text
  obtain ⟨moved, hmoved⟩ : ∃ n : Nat, (offset : Int) + (d'.bodyStart m - d.bodyStart m) = n :=
    ⟨(offset + (d'.bodyStart m - d.bodyStart m)).toNat, by omega⟩
  rw [hplace, hmoved]
  rcases Nat.lt_or_eq_of_le hmk with hmk | rfl
  · -- on a line further down the start of the body moves along
    have hk' : k < d'.lines.length := by omega
    have habove := Text.length_above_set hm hmk (Nat.le_of_lt hk) l
    rw [← hlines] at habove
    have hline : d'.lines[k] = d.lines[k] := by
      simp only [hlines]
      exact List.getElem_set_ne (by omega) _
    have hbodyk₀ := bodyStart_eq d hk
    have hbodyk₁ := bodyStart_eq d' hk'
    rw [hline] at hbodyk₁
    rw [d'.placeOf_of_le hk' (by omega) (by rw [hline]; omega), Prod.mk.injEq]
    exact ⟨rfl, by omega⟩
  · rw [d'.placeOf_of_le hm' (by rw [habove₁]; omega) (by rw [habove₁, hline₁]; omega),
      Prod.mk.injEq]
    exact ⟨rfl, by omega⟩

/-- **Indenting a line** that does not start inside anything, and that no atom goes on with, leaves
the tokens in their places. -/
theorem placed_eq_of_set (hbody : l.body = d.lines[m].body) (hin : ¬ d.StartsInside m)
    (hin' : ¬ d'.StartsInside m) (hjoined : ¬ d.Joined m) (hjoined' : ¬ d'.Joined m) :
    d'.placed = d.placed := by
  have hm' : m < d'.lines.length := by
    rw [hlines, List.length_set]
    exact hm
  have hfront : Text.above d'.lines m = Text.above d.lines m := by
    rw [hlines, Text.above_set_of_le (Nat.le_refl m)]
  have hbelow : Text.below d'.lines m = Text.below d.lines m := by
    rw [hlines, Text.below_set_of_le (Nat.le_refl m)]
  have hline : d'.lines[m].body = d.lines[m].body := by simp [hlines, hbody]
  have hsplit := d.significantTokens_eq_of_not_joined hm hin hjoined
  have hsplit' := d'.significantTokens_eq_of_not_joined hm' hin' hjoined'
  have hshift : d'.bodyStart m = d.bodyStart m + (d'.bodyStart m - d.bodyStart m) := by omega
  rw [hfront, hline, hbelow, hshift, significantFrom_add] at hsplit'
  rw [placed, placed, hsplit', hsplit, List.map_append, List.map_append, List.map_map]
  -- the tokens above the line stand where they stood, the others are all shifted alike
  congr 1
  · apply List.map_congr_left
    intro t ht
    obtain ⟨n, hn, hlt⟩ := exists_start_lt_of_mem_significantTokens ht
    rw [hn, placeOf_set_of_lt hm hlines hlt]
  · apply List.map_congr_left
    intro t ht
    have hmem : t ∈ significantTokens d.text := by
      rw [hsplit]
      exact List.mem_append_right _ ht
    obtain ⟨n, hn, hle⟩ := exists_start_of_mem_significantTokens hmem
    have hstart := le_start_of_mem_significantFrom ht
    rw [hn] at hstart
    simp only [Function.comp_def, Token.shift_toLexeme, Token.shift_start]
    rw [hn, placeOf_set_of_le hm hlines hbody hstart hle]

end Set

/-- The line of an offset decides whether it comes before a place in a line; in the line itself the
distance decides. -/
theorem lt_bodyStart_add_iff (d : Document) {offset k x : Nat} (h : offset ≤ d.text.length)
    (hk : k < d.lines.length) (hx : x ≤ d.lines[k].body.length) :
    (offset : Int) < d.bodyStart k + x ↔ (d.placeOf offset).1 < k ∨
      (d.placeOf offset).1 = k ∧ (d.placeOf offset).2 < x := by
  obtain ⟨j, hj, hplace, hlo, hhi⟩ := d.exists_placeOf h
  have hbody := bodyStart_eq d hk
  have hend := d.bodyStart_add_length hk
  rw [hplace]
  rcases Nat.lt_trichotomy j k with hlt | rfl | hgt
  · have := Text.length_above_lt hlt (Nat.le_of_lt hk)
    omega
  · omega
  · have := Text.length_above_lt hgt (Nat.le_of_lt hj)
    omega

/-- The column of an offset is its distance from the first unit of the line that is no blank, and
the blanks. -/
theorem columnAt_eq (d : Document) {offset : Nat} (h : offset ≤ d.text.length) :
    d.columnAt offset =
      (d.placeOf offset).2 + (d.lines[(d.placeOf offset).1.toNat]?.getD []).blanks.length := by
  obtain ⟨k, hk, hplace, hlo, hhi⟩ := d.exists_placeOf h
  rw [d.columnAt_of_le hk hlo hhi, hplace, bodyStart_eq d hk]
  simp only [Int.toNat_natCast, List.getElem?_eq_getElem hk, Option.getD_some]
  omega

section Placed

variable {d d' : Document} (hplaced : d'.placed = d.placed)
include hplaced

theorem length_eq_of_placed_eq :
    (significantTokens d'.text).length = (significantTokens d.text).length := by
  simpa [placed] using congrArg List.length hplaced

theorem getElem_of_placed_eq {i : Nat} (hi : i < (significantTokens d.text).length)
    (hi' : i < (significantTokens d'.text).length) :
    (significantTokens d'.text)[i].toLexeme = (significantTokens d.text)[i].toLexeme ∧
      d'.placeOf (significantTokens d'.text)[i].start =
        d.placeOf (significantTokens d.text)[i].start := by
  have := congrArg (·[i]?) hplaced
  simpa only [placed, List.getElem?_map, List.getElem?_eq_getElem hi,
    List.getElem?_eq_getElem hi', Option.map_some, Option.some.injEq, Prod.mk.injEq] using this

theorem kinds_eq_of_placed_eq :
    (significantTokens d'.text).map (·.kind) = (significantTokens d.text).map (·.kind) := by
  have := congrArg (List.map fun p => p.1.kind) hplaced
  simpa only [placed, List.map_map, Function.comp_def] using this

/-- **As many tokens come before a place** in a line. -/
theorem countBefore_eq_of_placed_eq {k x : Nat} (hk : k < d.lines.length)
    (hk' : k < d'.lines.length) (hx : x ≤ d.lines[k].body.length)
    (hx' : x ≤ d'.lines[k].body.length) :
    countBefore (significantTokens d'.text) (d'.bodyStart k + x) =
      countBefore (significantTokens d.text) (d.bodyStart k + x) := by
  have hlen := length_eq_of_placed_eq hplaced
  -- the tokens are in order, so it is enough to decide for each whether it comes before the place
  refine (ordered_significantTokens d'.text).countBefore_eq ?_ fun i hi' => ?_
  · rw [hlen]
    exact List.countP_le_length
  · have hi : i < (significantTokens d.text).length := by omega
    obtain ⟨n, hn, hle⟩ := exists_start_of_mem_significantTokens (List.getElem_mem hi)
    obtain ⟨n', hn', hle'⟩ := exists_start_of_mem_significantTokens (List.getElem_mem hi')
    have hplace := (getElem_of_placed_eq hplaced hi hi').2
    rw [hn, hn'] at hplace
    rw [(ordered_significantTokens d.text).lt_countBefore_iff hi, hn, hn',
      d.lt_bodyStart_add_iff hle hk hx, d'.lt_bodyStart_add_iff hle' hk' hx', hplace]

end Placed

end Document

end SexpEditing
