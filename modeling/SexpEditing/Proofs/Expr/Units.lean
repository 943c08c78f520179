import SexpEditing.Proofs.Expr.Shape
import SexpEditing.Proofs.Sexp.Span

/-!
# Expressions as units

The tokens of a complete expression, wherever they stand among others, are one unit: a motion from
the token before them goes to their last, and a motion from their end to the first of them, or to
the marks that stand before it. Only the kinds of the tokens matter for this.

## Main definitions

* `Matching.Balanced`: a run of kinds leaves the stack of openers as it was

## Main results

* `Expr.Sound.balanced`: what may stand in a closed list is balanced
* `Expr.Sound.exists_after`, `Expr.Sound.exists_before`: a complete expression is a unit
-/

namespace SexpEditing

open Matching

namespace Matching

/-- Read at any place, these kinds leave the stack as it was. -/
def Balanced (ks : List TokenKind) : Prop :=
  ∀ pre post : List TokenKind,
    unclosedAt (pre ++ ks ++ post) (pre.length + ks.length) =
      unclosedAt (pre ++ ks ++ post) pre.length

theorem balanced_nil : Balanced [] := fun _ _ => rfl

theorem balanced_singleton {k : TokenKind} (ho : k ≠ .opener) (hc : k ≠ .closer) :
    Balanced [k] := by
  intro pre post
  have hk : (pre ++ [k] ++ post)[pre.length]? = some k := by simp
  exact unclosedAt_succ_of_ne (by simpa [hk] using ho) (by simpa [hk] using hc)

theorem Balanced.append {ks ls : List TokenKind} (hk : Balanced ks) (hl : Balanced ls) :
    Balanced (ks ++ ls) := by
  intro pre post
  have h₁ := hk pre (ls ++ post)
  have h₂ := hl (pre ++ ks) post
  simp only [List.length_append, List.append_assoc] at h₁ h₂ ⊢
  rw [← Nat.add_assoc, h₂, h₁]

/-- The closing delimiter after a balanced run matches the opener before it. -/
theorem Balanced.matches {ks : List TokenKind} (h : Balanced ks) (pre post : List TokenKind) :
    Matches (pre ++ (.opener :: ks ++ [.closer]) ++ post) pre.length
      (pre.length + ks.length + 1) := by
  -- read behind the opener, the run leaves the stack with that opener on top
  have hstack := h (pre ++ [.opener]) (.closer :: post)
  have hlist : pre ++ (.opener :: ks ++ [.closer]) ++ post =
      pre ++ [TokenKind.opener] ++ ks ++ .closer :: post := by simp
  have ho : (pre ++ (.opener :: ks ++ [.closer]) ++ post)[pre.length]? = some .opener := by simp
  have hlen : (pre ++ [TokenKind.opener]).length = pre.length + 1 := by simp
  rw [← hlist, hlen, unclosedAt_succ_of_opener ho] at hstack
  constructor
  · have hfront : (pre ++ [TokenKind.opener] ++ ks).length = pre.length + ks.length + 1 := by
      rw [List.length_append, hlen]
      omega
    rw [hlist, List.getElem?_append_right (by omega), hfront, Nat.sub_self, List.getElem?_cons_zero]
  · rw [show pre.length + ks.length + 1 = pre.length + 1 + ks.length by omega, hstack,
      List.head?_cons]

theorem Balanced.enclosed {ks : List TokenKind} (h : Balanced ks) :
    Balanced (.opener :: ks ++ [.closer]) := by
  intro pre post
  have hm := h.matches pre post
  have hlen : pre.length + (.opener :: ks ++ [TokenKind.closer]).length =
      pre.length + ks.length + 1 + 1 := by
    simp
    omega
  rw [hlen, hm.unclosedAt_succ]

end Matching

namespace Span

variable {kinds : List TokenKind} {i : Nat}

theorem skipMarks_of_ne (h : kinds[i]? ≠ some .mark) : skipMarks kinds i = i := by
  rw [skipMarks, if_neg fun h' => h h'.2]

/-- A mark belongs to the unit after it. -/
theorem exists_after_of_mark (hm : kinds[i]? = some .mark) {u : Span}
    (h : after kinds (i + 1) = some u) : ∃ v, after kinds i = some v ∧ v.last = u.last := by
  obtain ⟨-, hle, hl⟩ := after_eq_some h
  have hskip : skipMarks kinds i = skipMarks kinds (i + 1) := by
    rw [skipMarks, if_pos ⟨by omega, hm⟩]
  have hlt : i + 1 ≤ skipMarks kinds (i + 1) := le_skipMarks (i + 1)
  rw [after] at h
  rw [after, hskip]
  split at h
  · cases h
  · split at h
    · cases h
      exact ⟨_, if_pos (by omega), rfl⟩
    · cases h
  · obtain ⟨c, hc, rfl⟩ := Option.map_eq_some_iff.mp h
    exact ⟨_, congrArg (Option.map _) hc, rfl⟩
  · cases h
    exact ⟨_, rfl, rfl⟩

/-- An atom or a string is a unit. -/
theorem after_single {k : TokenKind} (hk : k = .atom ∨ k = .string) (pre post : List TokenKind) :
    after (pre ++ [k] ++ post) pre.length = some ⟨pre.length, pre.length, none⟩ := by
  have hget : (pre ++ [k] ++ post)[pre.length]? = some k := by simp
  rw [after, skipMarks_of_ne (by rw [hget]; rcases hk with rfl | rfl <;> decide), hget]
  rcases hk with rfl | rfl <;> rfl

theorem before_single {k : TokenKind} (hk : k = .atom ∨ k = .string) (pre post : List TokenKind) :
    before (pre ++ [k] ++ post) (pre.length + 1) =
      some ⟨firstMark (pre ++ [k] ++ post) pre.length, pre.length, none⟩ := by
  have hget : (pre ++ [k] ++ post)[pre.length]? = some k := by simp
  rw [before, hget]
  rcases hk with rfl | rfl <;> rfl

/-- Where no mark stands before a token, a unit starts with it. -/
theorem firstMark_append {pre : List TokenKind} (h : pre.getLast? ≠ some .mark)
    (post : List TokenKind) : firstMark (pre ++ post) pre.length = pre.length := by
  rcases List.eq_nil_or_concat pre with rfl | ⟨init, k, rfl⟩
  · rfl
  · rw [List.concat_eq_append] at h ⊢
    have hk : (init ++ [k] ++ post)[init.length]? = some k := by simp
    rw [List.getLast?_concat] at h
    rw [List.length_append, List.length_singleton, firstMark, if_neg (by rw [hk]; exact h)]

end Span

namespace Expr

/-- The kinds of the tokens of an expression. -/
def kinds (e : Expr) : List TokenKind := e.tokens.map (·.kind)

@[simp] theorem length_kinds (e : Expr) : e.kinds.length = e.tokens.length := by
  simp [kinds]

theorem balanced_tokensOf {es : List Expr} (h : ∀ e ∈ es, Balanced e.kinds) :
    Balanced ((tokensOf es).map (·.kind)) := by
  induction es with
  | nil => exact balanced_nil
  | cons e es ih =>
    rw [tokensOf_cons, List.map_append]
    exact (h e (by simp)).append (ih fun f hf => h f (by simp [hf]))

theorem kinds_closed {opener closer : Token} {items : List Expr} (ho : opener.kind = .opener)
    (hc : closer.kind = .closer) :
    (Expr.list opener items (some closer)).kinds =
      .opener :: (tokensOf items).map (·.kind) ++ [.closer] := by
  simp [kinds, tokens, ho, hc]

theorem kinds_quoted {style : QuoteStyle} {mark : Token} {inner : Expr}
    (hm : mark.kind = .mark) : (Expr.quoted style mark inner).kinds = .mark :: inner.kinds := by
  simp [kinds, tokens, hm]

/-- **What may stand in a closed list is balanced.** -/
theorem Sound.balanced {e : Expr} (h : e.Sound) (hs : e.Settled) : Balanced e.kinds := by
  induction h with
  | closed ho hc _ hi ih =>
    rw [kinds_closed ho hc]
    exact (balanced_tokensOf fun e he => ih e he (hi e he)).enclosed
  | unclosed =>
    rcases hs with hs | ⟨t, hs, -⟩
    · cases hs
    · cases hs
  | quoted hm _ _ ih =>
    rw [kinds_quoted hm]
    refine (balanced_singleton (k := .mark) (by decide) (by decide)).append (ih ?_)
    rcases hs with hs | ⟨t, hs, -⟩
    · exact .inl hs
    · cases hs
  | atom hk => exact balanced_singleton (by simp [hk]) (by simp [hk])
  | string hk => exact balanced_singleton (by simp [hk]) (by simp [hk])
  | stray =>
    rcases hs with hs | ⟨t, hs, hk⟩
    · cases hs
    · cases hs
      exact balanced_singleton (by simp [hk]) (by simp [hk])

/-- A complete expression does not end with a mark. -/
theorem Sound.getLast?_kinds {e : Expr} (h : e.Sound) (hc : e.complete = true) :
    e.kinds.getLast? ≠ some .mark := by
  induction h with
  | closed ho hc' =>
    rw [kinds_closed ho hc', List.getLast?_concat]
    decide
  | unclosed => cases hc
  | quoted hm _ _ ih =>
    rw [kinds_quoted hm, List.getLast?_cons_of_ne_nil]
    · exact ih hc
    · rw [← List.length_pos_iff, length_kinds]
      exact length_tokens_pos _
  | atom hk => simp [kinds, tokens, hk]
  | string hk => simp [kinds, tokens, hk]
  | stray => cases hc

/-- **Going forward** over a complete expression. -/
theorem Sound.exists_after {e : Expr} (h : e.Sound) (hc : e.complete = true)
    (pre post : List TokenKind) :
    ∃ u, Span.after (pre ++ e.kinds ++ post) pre.length = some u ∧
      u.last + 1 = pre.length + e.tokens.length := by
  induction h generalizing pre with
  | @closed opener closer items ho hc' hs hi ih =>
    have hb : Balanced ((tokensOf items).map (·.kind)) :=
      balanced_tokensOf fun e he => (hs e he).balanced (hi e he)
    have hm := hb.matches pre post
    rw [kinds_closed ho hc']
    have hopen := hm.opener
    rw [Span.after, Span.skipMarks_of_ne (by rw [hopen]; decide), hopen]
    simp only
    rw [Span.closerOf?_eq_some_iff.mpr hm]
    refine ⟨_, rfl, ?_⟩
    simp [tokens]
    omega
  | unclosed => cases hc
  | @quoted style mark inner hm _ _ ih =>
    -- the mark is put to the tokens before the inner expression
    obtain ⟨u, hu, hlast⟩ := ih hc (pre ++ [.mark])
    have hlist : pre ++ [TokenKind.mark] ++ inner.kinds ++ post =
        pre ++ (.mark :: inner.kinds) ++ post := by simp
    rw [hlist, List.length_append, List.length_singleton] at hu
    obtain ⟨v, hv, hvu⟩ := Span.exists_after_of_mark (by simp) hu
    refine ⟨v, by rw [kinds_quoted hm, hv], ?_⟩
    simp only [List.length_append, List.length_singleton] at hlast
    simp only [tokens, List.length_cons]
    omega
  | @atom t hk => exact ⟨_, Span.after_single (.inl hk) pre post, rfl⟩
  | @string t hk => exact ⟨_, Span.after_single (.inr hk) pre post, rfl⟩
  | stray => cases hc

/-- **Going backward** over a complete expression, and over the marks before it. -/
theorem Sound.exists_before {e : Expr} (h : e.Sound) (hc : e.complete = true)
    (pre post : List TokenKind) :
    ∃ u, Span.before (pre ++ e.kinds ++ post) (pre.length + e.tokens.length) = some u ∧
      u.first = Span.firstMark (pre ++ e.kinds ++ post) pre.length := by
  induction h generalizing pre with
  | @closed opener closer items ho hc' hs hi ih =>
    have hb : Balanced ((tokensOf items).map (·.kind)) :=
      balanced_tokensOf fun e he => (hs e he).balanced (hi e he)
    have hm := hb.matches pre post
    rw [kinds_closed ho hc']
    have hlen : pre.length + (Expr.list opener items (some closer)).tokens.length =
        pre.length + ((tokensOf items).map (·.kind)).length + 1 + 1 := by
      simp [tokens]
      omega
    rw [hlen, Span.before, hm.1]
    simp only
    rw [hm.2]
    exact ⟨_, rfl, rfl⟩
  | unclosed => cases hc
  | @quoted style mark inner hm _ _ ih =>
    obtain ⟨u, hu, hfirst⟩ := ih hc (pre ++ [.mark])
    have hlist : pre ++ [TokenKind.mark] ++ inner.kinds ++ post =
        pre ++ (.mark :: inner.kinds) ++ post := by simp
    rw [hlist, List.length_append, List.length_singleton] at hu hfirst
    rw [kinds_quoted hm]
    refine ⟨u, ?_, ?_⟩
    · rw [← hu]
      simp only [tokens, List.length_cons]
      congr 1
      omega
    · rw [hfirst, Span.firstMark, if_pos (by simp)]
  | @atom t hk => exact ⟨_, Span.before_single (.inl hk) pre post, rfl⟩
  | @string t hk => exact ⟨_, Span.before_single (.inr hk) pre post, rfl⟩
  | stray => cases hc

end Expr

end SexpEditing
