import SexpEditing.Proofs.Sexp.Span

/-!
# The walk to the enclosing list

Going backward unit by unit keeps the stack of unclosed openers, since a unit leaves no trace on it,
and ends just after the top of the stack. Hence the walk, which never looks at a stack, finds the
innermost list that a reading from left to right would still hold open.

## Main results

* `Span.unclosedAt_first`: a unit leaves no trace on the stack
* `Span.enclosing_eq_head?`: with enough steps the walk finds the top of the stack
* `Span.head?_of_enclosing`: with any number of steps it finds nothing else
* `Navigator.Shows.upList_eq`: the openers of the enclosing lists, from the innermost out
-/

namespace SexpEditing

open Matching

namespace Span

variable {kinds : List TokenKind}

theorem unclosedAt_eq_of_marks {m n : Nat} (hmn : m ≤ n)
    (h : ∀ j, m ≤ j → j < n → kinds[j]? = some .mark) :
    unclosedAt kinds n = unclosedAt kinds m := by
  induction n with
  | zero => rw [Nat.le_zero.mp hmn]
  | succ n ih =>
    rcases Nat.lt_or_eq_of_le hmn with hlt | rfl
    · have hm := h n (by omega) (Nat.lt_succ_self n)
      rw [unclosedAt_succ_of_ne (by simp [hm]) (by simp [hm])]
      exact ih (by omega) fun j hj hjn => h j hj (by omega)
    · rfl

theorem mark_of_firstMark_le {i j : Nat} (hj : firstMark kinds i ≤ j) (hi : j < i) :
    kinds[j]? = some .mark := by
  induction i with
  | zero => omega
  | succ i ih =>
    rw [firstMark] at hj
    split at hj
    · next hm =>
      rcases Nat.lt_or_eq_of_le (Nat.lt_succ_iff.mp hi) with hlt | rfl
      · exact ih hj hlt
      · exact hm
    · omega

theorem unclosedAt_firstMark (i : Nat) :
    unclosedAt kinds (firstMark kinds i) = unclosedAt kinds i :=
  (unclosedAt_eq_of_marks (firstMark_le i) fun _ => mark_of_firstMark_le).symm

/-- A unit leaves no trace on the stack. -/
theorem unclosedAt_first {n : Nat} {u : Span} (h : before kinds n = some u) :
    unclosedAt kinds u.first = unclosedAt kinds n := by
  cases n with
  | zero => cases h
  | succ last =>
    rw [before] at h
    split at h
    · cases h
    · cases h
    · next hk =>
      obtain ⟨o, ho, rfl⟩ := Option.map_eq_some_iff.mp h
      rw [unclosedAt_firstMark, Matches.unclosedAt_succ ⟨hk, ho⟩]
    · next kind ho hc hk =>
      cases h
      rw [unclosedAt_firstMark, unclosedAt_succ_of_ne]
      · rw [hk]
        exact fun h => ho (Option.some.inj h)
      · rw [hk]
        exact fun h => hc (Option.some.inj h)

/-- Where no unit ends, there is an opener, or nothing is open. -/
theorem head?_of_before_eq_none {n : Nat} (hn : n ≤ kinds.length) (h : before kinds n = none) :
    (unclosedAt kinds n).head? =
      if kinds[n - 1]? = some .opener ∧ 0 < n then some (n - 1) else none := by
  cases n with
  | zero => simp
  | succ last =>
    have hk : kinds[last]? = some kinds[last] := List.getElem?_eq_getElem hn
    rw [before] at h
    split at h
    · next h' => simp [hk] at h'
    · next ho => simp [unclosedAt_succ_of_opener ho, ho]
    · next hc =>
      -- an unmatched closing delimiter: the stack was empty
      have hs : unclosedAt kinds last = [] := by simpa using h
      simp [unclosedAt_succ_of_closer hc, hs, hc]
    · cases h

/-- With more steps than tokens, **the walk finds the top of the stack**. -/
theorem enclosing_eq_head? {steps n : Nat} (hn : n ≤ kinds.length) (hs : n < steps) :
    enclosing kinds steps n = (unclosedAt kinds n).head? := by
  induction steps generalizing n with
  | zero => omega
  | succ steps ih =>
    rw [enclosing]
    cases hb : before kinds n with
    | some u =>
      -- every unit has a token, so the number of tokens left pays for the step
      obtain ⟨hle, hlast, -⟩ := before_eq_some hb
      rw [← unclosedAt_first hb]
      exact ih (by omega) (by omega)
    | none => rw [head?_of_before_eq_none hn hb]

theorem head?_of_enclosing {steps n o : Nat} (hn : n ≤ kinds.length)
    (h : enclosing kinds steps n = some o) : (unclosedAt kinds n).head? = some o := by
  induction steps generalizing n with
  | zero => cases h
  | succ steps ih =>
    rw [enclosing] at h
    cases hb : before kinds n with
    | some u =>
      obtain ⟨hle, hlast, -⟩ := before_eq_some hb
      rw [hb] at h
      rw [← unclosedAt_first hb]
      exact ih (by omega) h
    | none =>
      rw [hb] at h
      rw [head?_of_before_eq_none hn hb]
      exact h

/-- The walk ends at an opener among the first tokens. -/
theorem opener_of_enclosing {steps n o : Nat} (hn : n ≤ kinds.length)
    (h : enclosing kinds steps n = some o) : kinds[o]? = some .opener ∧ o < n := by
  have hm := List.mem_of_head? (head?_of_enclosing hn h)
  exact ⟨opener_of_mem_unclosedAt hm, lt_of_mem_unclosedAt hm⟩

end Span

/-- The openers of the lists that enclose an offset, from the innermost out: a reading of the
tokens that start before the offset leaves them unclosed. -/
def enclosingOpeners (t : Text) (offset : Int) : List Token :=
  Matching.unclosedAfter [] ((significantTokens t).filter fun u => u.start < offset)

namespace Navigator

open Token

section Shows

variable {nav : Navigator} {ts : List Token} (h : nav.Shows ts)
include h

/-- With more steps than tokens, `levels` steps out of the innermost list. -/
theorem Shows.upList_eq (hs : ts.length < nav.maxSteps) (offset : Int) (levels : Nat) :
    nav.upList offset (levels + 1) =
      (unclosedAt (ts.map (·.kind)) (countBefore ts offset))[levels]?.bind fun i => ts[i]? := by
  have hwalk (offset : Int) : nav.enclosingOpener nav.maxSteps offset =
      (unclosedAt (ts.map (·.kind)) (countBefore ts offset)).head?.bind fun i => ts[i]? := by
    have hn : countBefore ts offset ≤ ts.length := List.countP_le_length
    rw [h.enclosingOpener_eq, Span.enclosing_eq_head? (by simpa using hn) (by omega)]
  -- each step out takes the top off the stack
  induction levels generalizing offset with
  | zero => rw [upList, hwalk, List.head?_eq_getElem?]
  | succ levels ih =>
    rw [upList, hwalk]
    cases hstack : unclosedAt (ts.map (·.kind)) (countBefore ts offset) with
    | nil => rfl
    | cons o outer =>
      obtain ⟨-, hk, rfl⟩ := eq_of_unclosedAt_eq_cons hstack
      have ho : o < ts.length := by simpa using (List.getElem?_eq_some_iff.mp hk).1
      rw [List.head?_cons, Option.bind_some, List.getElem?_eq_getElem ho, Option.bind_eq_bind,
        Option.bind_some, ih, h.ordered.countBefore_start, List.getElem?_cons_succ]

theorem Shows.of_upList_eq_some {offset : Int} {levels : Nat} {opener : Token}
    (hu : nav.upList offset (levels + 1) = some opener) :
    ((unclosedAt (ts.map (·.kind)) (countBefore ts offset))[levels]?.bind fun i => ts[i]?) =
      some opener := by
  have hwalk {offset : Int} {opener : Token}
      (he : nav.enclosingOpener nav.maxSteps offset = some opener) :
      ∃ o, ∃ ho : o < ts.length, opener = ts[o] ∧
        unclosedAt (ts.map (·.kind)) (countBefore ts offset) =
          o :: unclosedAt (ts.map (·.kind)) o := by
    rw [h.enclosingOpener_eq] at he
    obtain ⟨o, ho, ht⟩ := Option.bind_eq_some_iff.mp he
    have hn : countBefore ts offset ≤ ts.length := List.countP_le_length
    obtain ⟨outer, hstack⟩ :=
      List.head?_eq_some_iff.mp (Span.head?_of_enclosing (by simpa using hn) ho)
    obtain ⟨ho, rfl⟩ := List.getElem?_eq_some_iff.mp ht
    exact ⟨o, ho, rfl, by rw [hstack, (eq_of_unclosedAt_eq_cons hstack).2.2]⟩
  -- from the opener that was found, the stack goes on with the outer ones
  induction levels generalizing offset with
  | zero =>
    rw [upList] at hu
    obtain ⟨o, ho, rfl, hstack⟩ := hwalk hu
    simp [hstack, ho]
  | succ levels ih =>
    rw [upList] at hu
    obtain ⟨inner, hinner, hu⟩ := Option.bind_eq_some_iff.mp hu
    obtain ⟨o, ho, rfl, hstack⟩ := hwalk hinner
    have := ih hu
    rw [h.ordered.countBefore_start] at this
    rw [hstack, List.getElem?_cons_succ, this]

end Shows

/-- The stack at an offset, by tokens. -/
theorem enclosingOpeners_getElem? (t : Text) (offset : Int) (k : Nat) :
    (enclosingOpeners t offset)[k]? =
      (unclosedAt ((significantTokens t).map (·.kind))
        (countBefore (significantTokens t) offset))[k]?.bind
          fun i => (significantTokens t)[i]? := by
  have hle : countBefore (significantTokens t) offset ≤ (significantTokens t).length :=
    List.countP_le_length
  have hm := unclosedAfter_take hle
  have hk := congrArg (fun l => l[k]?.join) hm
  rw [enclosingOpeners, (ordered_significantTokens t).filter_start_lt]
  simp only [List.getElem?_map] at hk
  -- the two stacks have a member at the same levels
  generalize (unclosedAfter [] _)[k]? = x at hk ⊢
  generalize (unclosedAt _ _)[k]? = y at hk ⊢
  cases x <;> cases y <;> simp_all

end Navigator

end SexpEditing
