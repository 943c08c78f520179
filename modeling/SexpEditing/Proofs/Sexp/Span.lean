import SexpEditing.Proofs.Token.Matching
import SexpEditing.Proofs.Token.Order
import SexpEditing.Sexp.Context

/-!
# Motions by index

A motion over the units of a text sees of the offset only how many tokens start before it, or end
at it or before it, and of the tokens only their kinds. So every motion is first one over the
indexes of a list of kinds, and then the tokens are put in.

## Main definitions

* `Span`: a unit by the indexes of its tokens
* `Span.before`, `Span.after`: the unit before and after an index
* `Span.enclosing`, `Span.countAfter`: the walks over siblings
* `Navigator.Shows`: a navigator shows some tokens

## Main results

* `Navigator.Shows.backwardSexp_eq`, `Navigator.Shows.forwardSexp_eq`: the two motions by index
* `Navigator.Shows.enclosingOpener_eq`, `Navigator.Shows.countSiblings_eq`: the two walks by index
-/

namespace SexpEditing

/-- A unit by the indexes of its first and its last token, and those of its delimiters if it is a
list. -/
structure Span where
  first : Nat
  last : Nat
  delimiters : Option (Nat × Nat)
deriving DecidableEq, Repr

namespace Span

open Matching

/-- The index of the first of the quotation marks that stand directly before a token. -/
def firstMark (kinds : List TokenKind) : Nat → Nat
  | 0 => 0
  | i + 1 => if kinds[i]? = some .mark then firstMark kinds i else i + 1

/-- The index of the first token at or after an index that is no quotation mark, or of the last
token if there are only marks. -/
def skipMarks (kinds : List TokenKind) (i : Nat) : Nat :=
  if i + 1 < kinds.length ∧ kinds[i]? = some .mark then skipMarks kinds (i + 1) else i
termination_by kinds.length - i

/-- The closing delimiter that matches an opener. -/
def closerOf? (kinds : List TokenKind) (o : Nat) : Option Nat :=
  (List.range kinds.length).find? fun c =>
    kinds[c]? == some .closer && (unclosedAt kinds c).head? == some o

/-- The unit that ends with the last of the first tokens. -/
def before (kinds : List TokenKind) : Nat → Option Span
  | 0 => none
  | last + 1 =>
    match kinds[last]? with
    | none | some .opener => none
    | some .closer =>
      (unclosedAt kinds last).head?.map fun o => ⟨firstMark kinds o, last, some (o, last)⟩
    | some _ => some ⟨firstMark kinds last, last, none⟩

/-- The unit that starts with a token. -/
def after (kinds : List TokenKind) (first : Nat) : Option Span :=
  let i := skipMarks kinds first
  match kinds[i]? with
  | none => none
  | some .closer => if first < i then some ⟨first, i - 1, none⟩ else none
  | some .opener => (closerOf? kinds i).map fun c => ⟨first, c, some (i, c)⟩
  | some _ => some ⟨first, i, none⟩

/-- Walks backward over at most `steps` units to the opener before the first. -/
def enclosing (kinds : List TokenKind) : (steps : Nat) → (n : Nat) → Option Nat
  | 0, _ => none
  | steps + 1, n =>
    match before kinds n with
    | some u => enclosing kinds steps u.first
    | none => if kinds[n - 1]? = some .opener ∧ 0 < n then some (n - 1) else none

/-- The number of units from a token on, at most `steps`, whose last token is among the first
`limit` tokens. -/
def countAfter (kinds : List TokenKind) (limit : Nat) : (steps : Nat) → (first : Nat) → Nat
  | 0, _ => 0
  | steps + 1, first =>
    match after kinds first with
    | some u => if u.last < limit then countAfter kinds limit steps (u.last + 1) + 1 else 0
    | none => 0

/-- The unit with its tokens put in. -/
def sexp (ts : List Token) (u : Span) : Option Sexp := do
  let first ← ts[u.first]?
  let last ← ts[u.last]?
  return ⟨⟨first.start, last.stop⟩, u.delimiters.bind fun d => ts[d.1]?,
    u.delimiters.bind fun d => ts[d.2]?⟩

variable {kinds : List TokenKind}

/-! ### Where spans lie -/

theorem firstMark_le (i : Nat) : firstMark kinds i ≤ i := by
  induction i with
  | zero => exact Nat.le_refl 0
  | succ i ih =>
    rw [firstMark]
    split
    · exact Nat.le_succ_of_le ih
    · exact Nat.le_refl _

theorem le_skipMarks (i : Nat) : i ≤ skipMarks kinds i := by
  fun_induction skipMarks kinds i with
  | case1 i h ih => omega
  | case2 => exact Nat.le_refl _

theorem skipMarks_lt {i : Nat} (hi : i < kinds.length) : skipMarks kinds i < kinds.length := by
  fun_induction skipMarks kinds i with
  | case1 i h ih => exact ih h.1
  | case2 => exact hi

/-- What is skipped are marks. -/
theorem mark_of_lt_skipMarks {i j : Nat} (hi : i ≤ j) (hj : j < skipMarks kinds i) :
    kinds[j]? = some .mark := by
  fun_induction skipMarks kinds i with
  | case1 i h ih =>
    rcases Nat.lt_or_eq_of_le hi with hlt | rfl
    · exact ih hlt hj
    · exact h.2
  | case2 => omega

/-- The skipping stops at a mark only if it is the last token. -/
theorem skipMarks_stop {i : Nat} (hm : kinds[skipMarks kinds i]? = some .mark) :
    kinds.length ≤ skipMarks kinds i + 1 := by
  fun_induction skipMarks kinds i with
  | case1 i h ih => exact ih hm
  | case2 i h =>
    simp only [hm, and_true, Nat.not_lt] at h
    exact h

theorem closerOf?_eq_some_iff {o c : Nat} : closerOf? kinds o = some c ↔ Matches kinds o c := by
  rw [closerOf?]
  constructor
  · intro h
    have := List.find?_some h
    simpa [Matches] using this
  · intro h
    rw [List.find?_range_eq_some]
    refine ⟨by simpa [Matches] using h, List.mem_range.mpr h.closer_lt, fun j hj => ?_⟩
    -- an earlier match would be a second one
    simp only [Bool.not_and, Bool.or_eq_true, Bool.not_eq_true', beq_eq_false_iff_ne]
    rw [← Decidable.not_and_iff_not_or_not]
    intro h'
    have := h.closer_unique h'
    omega

theorem closerOf?_eq_none_iff {o : Nat} : closerOf? kinds o = none ↔ ∀ c, ¬ Matches kinds o c := by
  rw [Option.eq_none_iff_forall_ne_some]
  exact forall_congr' fun c => not_congr closerOf?_eq_some_iff

theorem before_eq_some {n : Nat} {u : Span} (h : before kinds n = some u) :
    u.first ≤ u.last ∧ u.last + 1 = n ∧ u.last < kinds.length := by
  cases n with
  | zero => cases h
  | succ last =>
    rw [before] at h
    split at h
    · cases h
    · cases h
    · next hk =>
      obtain ⟨o, ho, rfl⟩ := Option.map_eq_some_iff.mp h
      -- the marks before a list stand before its opener, which comes before its end
      have hm : Matches kinds o last := ⟨hk, ho⟩
      have : firstMark kinds o ≤ o := firstMark_le o
      have := hm.lt
      exact ⟨by simp only; omega, rfl, hm.closer_lt⟩
    · next _ _ _ hk =>
      cases h
      exact ⟨firstMark_le _, rfl, (List.getElem?_eq_some_iff.mp hk).1⟩

/-- The delimiters of a unit that ends with the last of the first tokens are among these. -/
theorem opener_of_before {n o c : Nat} {u : Span} (h : before kinds n = some u)
    (hd : u.delimiters = some (o, c)) : kinds[o]? = some .opener ∧ o < n := by
  cases n with
  | zero => cases h
  | succ last =>
    rw [before] at h
    split at h
    · cases h
    · cases h
    · next hk =>
      obtain ⟨o', ho, rfl⟩ := Option.map_eq_some_iff.mp h
      cases hd
      have hm : Matches kinds o c := ⟨hk, ho⟩
      have hlt := hm.lt
      exact ⟨hm.opener, by omega⟩
    · cases h
      cases hd

theorem after_eq_some {n : Nat} {u : Span} (h : after kinds n = some u) :
    u.first = n ∧ n ≤ u.last ∧ u.last < kinds.length := by
  have hle : n ≤ skipMarks kinds n := le_skipMarks n
  rw [after] at h
  split at h
  · cases h
  · next hk =>
    split at h
    · cases h
      have := (List.getElem?_eq_some_iff.mp hk).1
      exact ⟨rfl, by simp only; omega, by simp only; omega⟩
    · cases h
  · obtain ⟨c, hc, rfl⟩ := Option.map_eq_some_iff.mp h
    rw [closerOf?_eq_some_iff] at hc
    have := hc.lt
    exact ⟨rfl, by simp only; omega, hc.closer_lt⟩
  · next _ _ _ hk =>
    cases h
    exact ⟨rfl, hle, (List.getElem?_eq_some_iff.mp hk).1⟩

theorem sexp_eq_some {ts : List Token} {u : Span} (hf : u.first < ts.length)
    (hl : u.last < ts.length) :
    u.sexp ts = some ⟨⟨ts[u.first].start, ts[u.last].stop⟩,
      u.delimiters.bind fun d => ts[d.1]?, u.delimiters.bind fun d => ts[d.2]?⟩ := by
  simp [sexp, hf, hl]

end Span

namespace Navigator

open Matching Token

/-- A navigator shows some tokens: they are its significant tokens, they are in order, and its
partners are the delimiters that match. -/
structure Shows (nav : Navigator) (ts : List Token) : Prop where
  tokens_eq : nav.index.significant = ts.toArray
  ordered : Ordered ts
  partnerOf_iff (i x : Nat) : nav.index.partnerOf i = some x ↔
    Matches (ts.map (·.kind)) i x ∨ Matches (ts.map (·.kind)) x i

/-- A navigator for a document shows the significant tokens of its text. -/
theorem shows_ofDocument (d : Document) (maxSteps : Nat) :
    (ofDocument d maxSteps).Shows (significantTokens d.text) where
  tokens_eq := rfl
  ordered := ordered_significantTokens d.text
  partnerOf_iff i x := TokenIndex.partnerOf_eq_some_iff (tokenize d.text) i x

section Marks

variable {ts : List Token}

theorem firstMark_eq {i : Nat} (hi : i ≤ ts.length) :
    firstMark ts.toArray i = Span.firstMark (ts.map (·.kind)) i := by
  induction i with
  | zero => rfl
  | succ i ih =>
    rw [firstMark, Span.firstMark, ih (by omega)]
    have hlt : i < ts.length := by omega
    simp [hlt, Token.is]

theorem skipMarks_eq {i : Nat} : skipMarks ts.toArray i = Span.skipMarks (ts.map (·.kind)) i := by
  fun_induction Span.skipMarks (ts.map (·.kind)) i with
  | case1 i h ih =>
    obtain ⟨hlt, hm⟩ := h
    rw [List.length_map] at hlt
    have hi : i < ts.length := by omega
    have hm : ts[i].kind = .mark := by simpa [hi] using hm
    rw [skipMarks, dif_pos (by simpa using hlt)]
    simp [Token.is, hm, ih]
  | case2 i h =>
    rw [skipMarks]
    split
    · next hlt =>
      rw [List.size_toArray] at hlt
      have hi : i < ts.length := by omega
      have hm : ts[i].kind ≠ .mark := by simpa [hlt, hi] using h
      simp [Token.is, hm]
    · rfl

end Marks

section Shows

variable {nav : Navigator} {ts : List Token} (h : nav.Shows ts)
include h

theorem Shows.significantBefore_eq (offset : Int) :
    nav.index.significantBefore offset = previousIndex (countBefore ts offset) := by
  rw [TokenIndex.significantBefore, h.tokens_eq, h.ordered.indexBefore_eq]

theorem Shows.significantAfter_eq (offset : Int) :
    nav.index.significantAfter offset =
      if countEnded ts offset < ts.length then some (countEnded ts offset) else none := by
  rw [TokenIndex.significantAfter, h.tokens_eq, h.ordered.indexAfter_eq]

theorem Shows.tokens_getElem? (i : Nat) : nav.tokens[i]? = ts[i]? := by
  rw [tokens, h.tokens_eq, List.getElem?_toArray]

theorem Shows.spanOf?_eq {first last : Nat} (hf : first < ts.length) (hl : last < ts.length) :
    nav.spanOf? first last = some ⟨ts[first].start, ts[last].stop⟩ := by
  simp only [spanOf?, h.tokens_getElem?, hl, List.getElem?_eq_getElem, hf]
  rfl

/-- The partner of a closing delimiter is the innermost opener that is unclosed there. -/
theorem Shows.partnerOf_closer {c : Nat} (hc : (ts.map (·.kind))[c]? = some .closer) :
    nav.index.partnerOf c = (unclosedAt (ts.map (·.kind)) c).head? := by
  ext o
  rw [h.partnerOf_iff]
  constructor
  · rintro (hm | hm)
    · exact absurd (hc.symm.trans hm.opener) (by simp)
    · exact hm.2
  · exact fun ho => .inr ⟨hc, ho⟩

/-- The partner of an opener is the delimiter that closes it. -/
theorem Shows.partnerOf_opener {o : Nat} (ho : (ts.map (·.kind))[o]? = some .opener) :
    nav.index.partnerOf o = Span.closerOf? (ts.map (·.kind)) o := by
  ext c
  rw [h.partnerOf_iff, Span.closerOf?_eq_some_iff]
  constructor
  · rintro (hm | hm)
    · exact hm
    · exact absurd (ho.symm.trans hm.1) (by simp)
  · exact .inl

/-- **Going backward**, the unit depends only on how many tokens start before the offset. -/
theorem Shows.backwardSexp_eq (offset : Int) :
    nav.backwardSexp offset =
      (Span.before (ts.map (·.kind)) (countBefore ts offset)).bind fun u => u.sexp ts := by
  rw [backwardSexp, h.significantBefore_eq]
  have hn : countBefore ts offset ≤ ts.length := List.countP_le_length
  cases hc : countBefore ts offset with
  | zero => rfl
  | succ last =>
    have hlt : last < ts.length := by omega
    have hk : (ts.map (·.kind))[last]? = some ts[last].kind := by simp [hlt]
    have htokens : nav.tokens = ts.toArray := h.tokens_eq
    simp only [previousIndex, h.tokens_getElem?, List.getElem?_eq_getElem hlt, Option.bind_eq_bind,
      Option.bind_some, Span.before, hk]
    have hle : Span.firstMark (ts.map (·.kind)) last ≤ last := Span.firstMark_le last
    -- a unit that is no list reaches from its first mark to the last token
    have hplain : (nav.spanOf? (firstMark nav.tokens last) last).bind
        (fun range => some (Sexp.mk range none none)) =
        Span.sexp ts ⟨Span.firstMark (ts.map (·.kind)) last, last, none⟩ := by
      rw [htokens, firstMark_eq (Nat.le_of_lt hlt), h.spanOf?_eq (Nat.lt_of_le_of_lt hle hlt) hlt,
        Span.sexp_eq_some (Nat.lt_of_le_of_lt hle hlt) hlt]
      rfl
    cases hkind : ts[last].kind with
    | opener => rfl
    | closer =>
      rw [hkind] at hk
      rw [h.partnerOf_closer hk]
      cases hs : (unclosedAt (ts.map (·.kind)) last).head? with
      | none => rfl
      | some o =>
        have ho : o < last := Matches.lt ⟨hk, hs⟩
        have hle : Span.firstMark (ts.map (·.kind)) o ≤ o := Span.firstMark_le o
        simp only [Option.bind_some, Option.map_some]
        rw [List.getElem?_eq_getElem (Nat.lt_trans ho hlt), Option.bind_some, htokens,
          firstMark_eq (by omega), h.spanOf?_eq (by omega) hlt,
          Span.sexp_eq_some (by simp only; omega) hlt]
        simp [hlt, Nat.lt_trans ho hlt]
    | space | comment | mark | atom | string => exact hplain

/-- **Going forward**, the unit depends only on how many tokens end at the offset or before it. -/
theorem Shows.forwardSexp_eq (offset : Int) :
    nav.forwardSexp offset =
      (Span.after (ts.map (·.kind)) (countEnded ts offset)).bind fun u => u.sexp ts := by
  rw [forwardSexp, h.significantAfter_eq]
  generalize countEnded ts offset = n
  have htokens : nav.tokens = ts.toArray := h.tokens_eq
  have hle : n ≤ Span.skipMarks (ts.map (·.kind)) n := Span.le_skipMarks n
  by_cases hn : n < ts.length
  · have hlt : Span.skipMarks (ts.map (·.kind)) n < (ts.map (·.kind)).length :=
      Span.skipMarks_lt (by simpa using hn)
    simp only [if_pos hn, Option.bind_eq_bind, Option.bind_some, htokens, skipMarks_eq, Span.after]
    rw [List.length_map] at hlt
    generalize Span.skipMarks (ts.map (·.kind)) n = i at hle hlt ⊢
    have hk : (ts.map (·.kind))[i]? = some ts[i].kind := by simp [hlt]
    have hplain : (nav.spanOf? n i).bind (fun range => some (Sexp.mk range none none)) =
        Span.sexp ts ⟨n, i, none⟩ := by
      rw [h.spanOf?_eq (Nat.lt_of_le_of_lt hle hlt) hlt, Span.sexp_eq_some hn hlt]
      rfl
    simp only [List.getElem?_toArray, List.getElem?_eq_getElem hlt, Option.bind_some, hk]
    cases hkind : ts[i].kind with
    | closer =>
      -- marks alone, up to the closing delimiter
      by_cases hni : n < i
      · simp only [if_pos hni, Option.bind_some]
        rw [h.spanOf?_eq (by omega) (by omega), Span.sexp_eq_some hn (by simp only; omega)]
        rfl
      · simp only [if_neg hni, Option.bind_none]
    | opener =>
      rw [hkind] at hk
      rw [h.partnerOf_opener hk]
      cases hs : Span.closerOf? (ts.map (·.kind)) i with
      | none => rfl
      | some c =>
        rw [Span.closerOf?_eq_some_iff] at hs
        have hic := hs.lt
        have hcl : c < ts.length := by simpa using hs.closer_lt
        simp only [Option.bind_some, Option.map_some]
        rw [List.getElem?_eq_getElem hcl, Option.bind_some, h.spanOf?_eq (by omega) hcl,
          Span.sexp_eq_some hn hcl]
        simp [hlt, hcl]
    | space | comment | mark | atom | string => exact hplain
  · have hskip : ts.length ≤ Span.skipMarks (ts.map (·.kind)) n := by omega
    simp only [if_neg hn, Span.after, List.getElem?_eq_none (l := ts.map (·.kind))
      (by simpa using hskip)]
    rfl

/-- **The walk to the enclosing opener** depends only on how many tokens start before the
offset. -/
theorem Shows.enclosingOpener_eq (steps : Nat) (offset : Int) :
    nav.enclosingOpener steps offset =
      (Span.enclosing (ts.map (·.kind)) steps (countBefore ts offset)).bind fun i => ts[i]? := by
  induction steps generalizing offset with
  | zero => rfl
  | succ steps ih =>
    rw [enclosingOpener, Span.enclosing, h.backwardSexp_eq]
    cases hb : Span.before (ts.map (·.kind)) (countBefore ts offset) with
    | some u =>
      obtain ⟨hf, -, hl⟩ := Span.before_eq_some hb
      rw [List.length_map] at hl
      rw [Option.bind_some, Span.sexp_eq_some (Nat.lt_of_le_of_lt hf hl) hl]
      simp only
      rw [ih, h.ordered.countBefore_start]
    | none =>
      simp only [Option.bind_none, h.significantBefore_eq, h.tokens_getElem?]
      have hn : countBefore ts offset ≤ ts.length := List.countP_le_length
      generalize countBefore ts offset = n at hn ⊢
      cases n with
      | zero => simp [previousIndex]
      | succ i =>
        have hlt : i < ts.length := by omega
        by_cases ho : ts[i].kind = .opener <;> simp [previousIndex, hlt, Token.is, ho]

/-- **The count of siblings** depends only on how many tokens end before the cursor, and on the
token to start from. -/
theorem Shows.countSiblings_eq (cursor : Int) (steps : Nat) (offset : Int) :
    nav.countSiblings cursor steps offset =
      Span.countAfter (ts.map (·.kind)) (countEnded ts (cursor - 1)) steps
        (countEnded ts offset) := by
  induction steps generalizing offset with
  | zero => rfl
  | succ steps ih =>
    rw [countSiblings, Span.countAfter, h.forwardSexp_eq]
    cases ha : Span.after (ts.map (·.kind)) (countEnded ts offset) with
    | none => rfl
    | some u =>
      obtain ⟨hf, hle, hl⟩ := Span.after_eq_some ha
      rw [List.length_map] at hl
      rw [Option.bind_some, Span.sexp_eq_some (by omega) hl]
      simp only
      -- the walk stops at the first unit that does not end before the cursor
      have hiff : u.last < countEnded ts (cursor - 1) ↔ ts[u.last].stop < cursor := by
        rw [h.ordered.lt_countEnded_iff hl]
        omega
      by_cases hlt : ts[u.last].stop < cursor
      · rw [if_pos hlt, if_pos (hiff.mpr hlt), ih, h.ordered.countEnded_stop]
      · rw [if_neg hlt, if_neg fun h' => hlt (hiff.mp h')]

end Shows

end Navigator

end SexpEditing
