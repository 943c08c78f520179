import SexpEditing.Proofs.Expr.Parsing
import SexpEditing.Proofs.Expr.Units

/-!
# Motions and trees

The parser splits a text with a stack of open lists, the motions with indexes into the tokens and
their partners. Both find the same units: a motion goes over the complete expressions of a level one
by one, and stops where a closed list ends or begins.

## Main definitions

* `Navigator.forwardRanges`, `Navigator.backwardRanges`: the ranges that repeated motions go over

## Main results

* `Navigator.motions_agree_with_trees`: the motions at the top level and in every closed list
-/

namespace SexpEditing

open Token SexpEditing.Expr

namespace Navigator

/-- The ranges that at most `n` motions forward go over. -/
def forwardRanges (nav : Navigator) : (n : Nat) → (offset : Int) → List Range
  | 0, _ => []
  | n + 1, offset =>
    match nav.forwardSexp offset with
    | some sexp => sexp.range :: forwardRanges nav n sexp.range.stop
    | none => []

/-- The ranges that at most `n` motions backward go over. -/
def backwardRanges (nav : Navigator) : (n : Nat) → (offset : Int) → List Range
  | 0, _ => []
  | n + 1, offset =>
    match nav.backwardSexp offset with
    | some sexp => sexp.range :: backwardRanges nav n sexp.range.start
    | none => []

section Shows

variable {nav : Navigator} {ts pre post : List Token} (h : nav.Shows ts)
include h

/-- The first token of an expression starts where its range does. -/
theorem Shows.countBefore_range_start {e : Expr} (hts : ts = pre ++ e.tokens ++ post) :
    countBefore ts e.range.start = pre.length := by
  have hpos := e.length_tokens_pos
  obtain ⟨last, hlast⟩ : ∃ last, last + 1 = pre.length + e.tokens.length :=
    ⟨pre.length + e.tokens.length - 1, by omega⟩
  obtain ⟨hi, hj, hrange⟩ := range_eq h.ordered hts hlast
  rw [hrange, h.ordered.countBefore_start]

theorem Shows.countEnded_range_stop {e : Expr} (hts : ts = pre ++ e.tokens ++ post) :
    countEnded ts e.range.stop = pre.length + e.tokens.length := by
  have hpos := e.length_tokens_pos
  obtain ⟨last, hlast⟩ : ∃ last, last + 1 = pre.length + e.tokens.length :=
    ⟨pre.length + e.tokens.length - 1, by omega⟩
  obtain ⟨hi, hj, hrange⟩ := range_eq h.ordered hts hlast
  rw [hrange, h.ordered.countEnded_stop, hlast]

/-- From the end of the token before it, a motion goes over a complete expression. -/
theorem Shows.exists_forwardSexp {e : Expr} (hs : e.Sound) (hc : e.complete = true)
    (hts : ts = pre ++ e.tokens ++ post) {offset : Int} (ho : countEnded ts offset = pre.length) :
    ∃ sexp, nav.forwardSexp offset = some sexp ∧ sexp.range = e.range := by
  obtain ⟨u, hu, hlast⟩ := hs.exists_after hc (pre.map (·.kind)) (post.map (·.kind))
  obtain ⟨hfirst, -, -⟩ := Span.after_eq_some hu
  rw [List.length_map] at hu hfirst hlast
  have hkinds : ts.map (·.kind) = pre.map (·.kind) ++ e.kinds ++ post.map (·.kind) := by
    simp [hts, kinds]
  have hpos := e.length_tokens_pos
  have hlen : ts.length = pre.length + e.tokens.length + post.length := by
    simp [hts]
    omega
  rw [h.forwardSexp_eq, ho, hkinds, hu, Option.bind_some,
    Span.sexp_eq_some (by omega) (by omega)]
  refine ⟨_, rfl, ?_⟩
  obtain ⟨hi, hj, hrange⟩ := range_eq h.ordered hts hlast
  simp only [hfirst, hrange]

/-- From the start of the token after it, a motion goes over a complete expression, if no mark
stands before that. -/
theorem Shows.exists_backwardSexp {e : Expr} (hs : e.Sound) (hc : e.complete = true)
    (hts : ts = pre ++ e.tokens ++ post) (hp : (pre.map (·.kind)).getLast? ≠ some .mark)
    {offset : Int} (ho : countBefore ts offset = pre.length + e.tokens.length) :
    ∃ sexp, nav.backwardSexp offset = some sexp ∧ sexp.range = e.range := by
  obtain ⟨u, hu, hfirst⟩ := hs.exists_before hc (pre.map (·.kind)) (post.map (·.kind))
  obtain ⟨-, hlast, -⟩ := Span.before_eq_some hu
  rw [List.append_assoc, Span.firstMark_append hp] at hfirst
  rw [List.length_map] at hu hfirst hlast
  have hkinds : ts.map (·.kind) = pre.map (·.kind) ++ e.kinds ++ post.map (·.kind) := by
    simp [hts, kinds]
  have hpos := e.length_tokens_pos
  have hlen : ts.length = pre.length + e.tokens.length + post.length := by
    simp [hts]
    omega
  rw [h.backwardSexp_eq, ho, hkinds, hu, Option.bind_some,
    Span.sexp_eq_some (by omega) (by omega)]
  refine ⟨_, rfl, ?_⟩
  obtain ⟨hi, hj, hrange⟩ := range_eq h.ordered hts hlast
  simp only [hfirst, hrange]

/-- Motions forward go over complete expressions one by one. -/
theorem Shows.exists_forwardRanges_eq {es : List Expr}
    (hes : ∀ e ∈ es, e.Sound ∧ e.complete = true) (hts : ts = pre ++ tokensOf es ++ post)
    {offset : Int} (ho : countEnded ts offset = pre.length) :
    ∃ offset' : Int, countEnded ts offset' = pre.length + (tokensOf es).length ∧
      ∀ n, nav.forwardRanges n offset =
        (es.map Expr.range).take n ++ nav.forwardRanges (n - es.length) offset' := by
  induction es generalizing pre offset with
  | nil => exact ⟨offset, by simpa using ho, fun n => by simp⟩
  | cons e es ih =>
    obtain ⟨hs, hc⟩ := hes e (by simp)
    have hts' : ts = pre ++ e.tokens ++ (tokensOf es ++ post) := by simp [hts]
    obtain ⟨sexp, hsexp, hrange⟩ := h.exists_forwardSexp hs hc hts' ho
    -- the next motion sets out from where this expression stops
    have hstop : countEnded ts e.range.stop = (pre ++ e.tokens).length := by
      rw [h.countEnded_range_stop hts', List.length_append]
    obtain ⟨offset', ho', hrest⟩ := ih (fun f hf => hes f (by simp [hf])) (by simp [hts]) hstop
    refine ⟨offset', ?_, fun n => ?_⟩
    · rw [ho', tokensOf_cons, List.length_append, List.length_append, Nat.add_assoc]
    · cases n with
      | zero => simp [forwardRanges]
      | succ n =>
        rw [forwardRanges, hsexp]
        simp only [hrange, hrest, List.map_cons, List.take_succ_cons, List.length_cons,
          Nat.add_sub_add_right, List.cons_append]

/-- Motions backward go over complete expressions one by one, if no mark stands before them. -/
theorem Shows.exists_backwardRanges_eq {es : List Expr}
    (hes : ∀ e ∈ es, e.Sound ∧ e.complete = true) (hts : ts = pre ++ tokensOf es ++ post)
    (hp : (pre.map (·.kind)).getLast? ≠ some .mark) {offset : Int}
    (ho : countBefore ts offset = pre.length + (tokensOf es).length) :
    ∃ offset' : Int, countBefore ts offset' = pre.length ∧
      ∀ n, nav.backwardRanges n offset =
        (es.map Expr.range).reverse.take n ++ nav.backwardRanges (n - es.length) offset' := by
  -- the motions meet the last expression first
  induction hrev : es.reverse generalizing es post offset with
  | nil =>
    obtain rfl := List.reverse_eq_nil_iff.mp hrev
    exact ⟨offset, by simpa using ho, fun n => by simp⟩
  | cons e rest ih =>
    obtain rfl : es = rest.reverse ++ [e] := by
      rw [← List.reverse_cons, ← hrev, List.reverse_reverse]
    obtain ⟨hs, hc⟩ := hes e (by simp)
    have hts' : ts = pre ++ tokensOf rest.reverse ++ e.tokens ++ post := by
      rw [hts, tokensOf_append]
      simp
    -- before the last expression stands another one, or what was there at first
    have hp' : ((pre ++ tokensOf rest.reverse).map (·.kind)).getLast? ≠ some .mark := by
      cases rest with
      | nil => simpa using hp
      | cons f rest =>
        obtain ⟨hfs, hfc⟩ := hes f (by simp)
        have hf := hfs.getLast?_kinds hfc
        have hne : f.kinds ≠ [] := by
          rw [← List.length_pos_iff, length_kinds]
          exact f.length_tokens_pos
        rw [List.reverse_cons, tokensOf_append, tokensOf_cons, tokensOf_nil, List.append_nil,
          ← List.append_assoc, List.map_append]
        change (_ ++ f.kinds).getLast? ≠ _
        obtain ⟨init, k, hk⟩ := (List.eq_nil_or_concat f.kinds).resolve_left hne
        rw [hk, List.concat_eq_append] at hf ⊢
        rwa [← List.append_assoc, List.getLast?_concat, ← List.getLast?_concat (l := init)]
    have hbefore : countBefore ts offset =
        (pre ++ tokensOf rest.reverse).length + e.tokens.length := by
      rw [ho, tokensOf_append]
      simp [Nat.add_assoc]
    have hstart : countBefore ts e.range.start = pre.length + (tokensOf rest.reverse).length := by
      rw [h.countBefore_range_start hts', List.length_append]
    have hrestts : ts = pre ++ tokensOf rest.reverse ++ (e.tokens ++ post) := by simp [hts']
    obtain ⟨sexp, hsexp, hrange⟩ := h.exists_backwardSexp hs hc hts' hp' hbefore
    obtain ⟨offset', ho', hrest⟩ := ih (fun f hf => hes f (by simp [hf])) hrestts hstart
      (List.reverse_reverse rest)
    refine ⟨offset', ho', fun n => ?_⟩
    cases n with
    | zero => simp [backwardRanges]
    | succ n =>
      rw [backwardRanges, hsexp]
      simp [hrange, hrest]

/-- Before a closing delimiter there is no motion forward. -/
theorem Shows.forwardRanges_of_closer {closer : Token} (hk : closer.kind = .closer)
    (hts : ts = pre ++ closer :: post) {offset : Int} (ho : countEnded ts offset = pre.length)
    (n : Nat) : nav.forwardRanges n offset = [] := by
  cases n with
  | zero => rfl
  | succ n =>
    have hget : (ts.map (·.kind))[pre.length]? = some .closer := by simp [hts, hk]
    rw [forwardRanges, h.forwardSexp_eq, ho, Span.after,
      Span.skipMarks_of_ne (by rw [hget]; decide), hget]
    simp

/-- After an opening delimiter there is no motion backward. -/
theorem Shows.backwardRanges_of_opener {opener : Token} (hk : opener.kind = .opener)
    (hts : ts = pre ++ opener :: post) {offset : Int}
    (ho : countBefore ts offset = pre.length + 1) (n : Nat) :
    nav.backwardRanges n offset = [] := by
  cases n with
  | zero => rfl
  | succ n =>
    have hget : (ts.map (·.kind))[pre.length]? = some .opener := by simp [hts, hk]
    rw [backwardRanges, h.backwardSexp_eq, ho, Span.before, hget]
    rfl

theorem Shows.countEnded_stop {t : Token} (hts : ts = pre ++ t :: post) :
    countEnded ts t.stop = pre.length + 1 := by
  have hget : ts[pre.length]? = some t := by simp [hts]
  obtain ⟨hlt, rfl⟩ := List.getElem?_eq_some_iff.mp hget
  exact h.ordered.countEnded_stop hlt

theorem Shows.countBefore_start {t : Token} (hts : ts = pre ++ t :: post) :
    countBefore ts t.start = pre.length := by
  have hget : ts[pre.length]? = some t := by simp [hts]
  obtain ⟨hlt, rfl⟩ := List.getElem?_eq_some_iff.mp hget
  exact h.ordered.countBefore_start hlt

/-- The motions in a list whose items are complete. -/
theorem Shows.ranges_eq_of_list {opener closer : Token} {items : List Expr}
    (ho : opener.kind = .opener) (hc : closer.kind = .closer)
    (hitems : ∀ e ∈ items, e.Sound ∧ e.complete = true)
    (hts : ts = pre ++ opener :: tokensOf items ++ closer :: post) (n : Nat) :
    nav.forwardRanges n opener.stop = (items.map Expr.range).take n ∧
      nav.backwardRanges n closer.start = (items.map Expr.range).reverse.take n := by
  -- the tokens of the list, split at its opener, around its items, and at its closing delimiter
  have hopen : ts = pre ++ opener :: (tokensOf items ++ closer :: post) := by simp [hts]
  have hinner : ts = (pre ++ [opener]) ++ tokensOf items ++ closer :: post := by simp [hts]
  have hclose : ts = (pre ++ opener :: tokensOf items) ++ closer :: post := by simp [hts]
  have hlen : (pre ++ [opener]).length = pre.length + 1 := by simp
  constructor
  · have hstart : countEnded ts opener.stop = (pre ++ [opener]).length := by
      rw [h.countEnded_stop hopen, hlen]
    obtain ⟨offset', ho', hrest⟩ := h.exists_forwardRanges_eq hitems hinner hstart
    have hend : countEnded ts offset' = (pre ++ opener :: tokensOf items).length := by
      rw [ho']
      simp [Nat.add_assoc, Nat.add_comm]
    rw [hrest, h.forwardRanges_of_closer hc hclose hend, List.append_nil]
  · have hstart : countBefore ts closer.start =
        (pre ++ [opener]).length + (tokensOf items).length := by
      rw [h.countBefore_start hclose]
      simp [Nat.add_assoc, Nat.add_comm]
    obtain ⟨offset', ho', hrest⟩ := h.exists_backwardRanges_eq hitems hinner
      (by simp [ho]) hstart
    rw [hrest, h.backwardRanges_of_opener ho hopen (by rw [ho', hlen]), List.append_nil]

end Shows

/-- **Motions and trees agree.** The motions from the start of a text go over the complete
expressions at its beginning. In a closed list that holds no stray token, the motions from either
end go over its items, and then there is no further one. -/
theorem motions_agree_with_trees (d : Document) (maxSteps : Nat) :
    ∃ es, Expr.ofText d.text = .ok es ∧
      (ofDocument d maxSteps).forwardRanges (es.takeWhile complete).length 0 =
        (es.takeWhile complete).map Expr.range ∧
      ∀ opener items closer, Expr.list opener items (some closer) ∈ partsOf es →
        (∀ e ∈ items, e.isStray = false) → ∀ n,
        (ofDocument d maxSteps).forwardRanges n opener.stop = (items.map Expr.range).take n ∧
        (ofDocument d maxSteps).backwardRanges n closer.start =
          (items.map Expr.range).reverse.take n := by
  obtain ⟨es, hes, htokens, hsound⟩ := Expr.exists_ofText d.text
  have h := shows_ofDocument d maxSteps
  refine ⟨es, hes, ?_, ?_⟩
  · -- no token ends where the text starts
    have hzero : countEnded (significantTokens d.text) 0 = 0 := by
      rw [countEnded, List.countP_eq_zero]
      intro t ht
      have hlt := h.ordered.start_lt_stop t ht
      obtain ⟨before, -, -, hstart, -⟩ :=
        exists_around_of_mem_tokenize (List.mem_filter.mp ht).1
      simp only [decide_eq_true_eq]
      omega
    have hts : significantTokens d.text =
        [] ++ tokensOf (es.takeWhile complete) ++ tokensOf (es.dropWhile complete) := by
      rw [List.nil_append, ← tokensOf_append, List.takeWhile_append_dropWhile, htokens]
    have hrun : ∀ e ∈ es.takeWhile complete, e.Sound ∧ e.complete = true := fun e he =>
      ⟨hsound e ((List.takeWhile_prefix _).subset he), List.all_eq_true.mp List.all_takeWhile e he⟩
    obtain ⟨offset', -, hrest⟩ := h.exists_forwardRanges_eq hrun hts hzero
    rw [hrest, Nat.sub_self, forwardRanges, List.append_nil, ← List.length_map, List.take_length]
  · intro opener items closer hpart hstray n
    have hlist := Expr.Sound.of_mem_partsOf hsound hpart
    cases hlist with
    | closed ho hc hitems hsettled =>
      -- in a closed list only marks are incomplete, and those are stray
      have hrun : ∀ e ∈ items, e.Sound ∧ e.complete = true := fun e he =>
        ⟨hitems e he, complete_of_settled (hsettled e he) (hstray e he)⟩
      obtain ⟨pre, post, hwhole⟩ := exists_around_of_mem_partsOf hpart
      rw [htokens] at hwhole
      have hts : significantTokens d.text =
          pre ++ opener :: tokensOf items ++ closer :: post := by
        rw [hwhole]
        simp [Expr.tokens]
      exact h.ranges_eq_of_list ho hc hrun hts n

/-- In the closed list `('a (b))` both motions go over two items, and no further. -/
example :
    let d := Document.ofText (Text.ofString "('a (b))")
    let nav := ofDocument d 0
    (match Expr.ofText d.text with
      | .ok [.list opener items (some closer)] =>
        (items.map Expr.range, nav.forwardRanges 3 opener.stop, nav.backwardRanges 3 closer.start)
      | _ => ([], [], [])) =
      ([⟨1, 3⟩, ⟨4, 7⟩], [⟨1, 3⟩, ⟨4, 7⟩], [⟨4, 7⟩, ⟨1, 3⟩]) := by
  decide +kernel

end Navigator

end SexpEditing
