import SexpEditing.Proofs.Expr.Parsing

/-!
# The layout of trees

Tokens that stand one behind the other are read as trees that do so too: each tree reaches from its
first token to its last, neighbours do not overlap, and what stands in a list stands within it. A
list that is not closed comes last wherever it occurs.

## Main definitions

* `Expr.Apart`: expressions one behind the other
* `Expr.Closed`: no list in an expression is open

## Main results

* `Expr.apart_of_laidOut`, `Expr.within_of_laidOut`: from the places of tokens to those of trees
* `Expr.Finished.closed`, `Expr.Unclosed.list_spec`: where a list may be open
* `Expr.parseMany_keeps_tokens`: the tokens of the trees, their places, and where lists are open
-/

namespace SexpEditing

namespace Expr

/-! ### Places -/

/-- Expressions one behind the other. -/
def Apart (es : List Expr) : Prop := es.Pairwise fun e f => e.range.stop ≤ f.range.start

variable {e f : Expr} {es : List Expr}

/-- **Trees of tokens in order** are in order. -/
theorem apart_of_laidOut (h : Token.LaidOut (tokensOf es)) : Apart es := by
  induction es with
  | nil => exact .nil
  | cons e es ih =>
    rw [tokensOf_cons] at h
    refine List.pairwise_cons.mpr ⟨fun f hf => ?_, ih h.of_append_right⟩
    obtain ⟨init, rest, rfl⟩ := List.append_of_mem hf
    have hf' := h.of_append_right
    rw [tokensOf_append, tokensOf_cons] at hf'
    obtain ⟨_, last, -, hlast, he⟩ := exists_range_eq h.of_append_left
    obtain ⟨first, _, hfirst, -, hf⟩ := exists_range_eq hf'.of_append_right.of_append_left
    rw [he, hf]
    refine (List.pairwise_append.mp h.pairwise).2.2 last (List.mem_of_getLast? hlast) first ?_
    simp [List.mem_of_head? hfirst]

/-- **A tree of some of the tokens** of another one is within that one. -/
theorem within_of_laidOut (h : Token.LaidOut e.tokens) {pre post : List Token}
    (he : e.tokens = pre ++ f.tokens ++ post) :
    e.range.start ≤ f.range.start ∧ f.range.stop ≤ e.range.stop := by
  obtain ⟨first, last, hfirst, hlast, hrange⟩ := exists_range_eq h
  obtain ⟨first', last', hfirst', hlast', hrange'⟩ :=
    exists_range_eq (he ▸ h).of_append_left.of_append_right
  have hmem {t : Token} (ht : t ∈ f.tokens) : t ∈ e.tokens := by simp [he, ht]
  rw [hrange, hrange']
  exact ⟨h.start_le hfirst (hmem (List.mem_of_head? hfirst')),
    h.stop_le hlast (hmem (List.mem_of_getLast? hlast'))⟩

theorem within_list {opener : Token} {items : List Expr} {closer : Option Token}
    (h : Token.LaidOut (list opener items closer).tokens) (he : e ∈ items) :
    (list opener items closer).range.start ≤ e.range.start ∧
      e.range.stop ≤ (list opener items closer).range.stop := by
  obtain ⟨init, rest, rfl⟩ := List.append_of_mem he
  have hsplit : (list opener (init ++ e :: rest) closer).tokens =
      (opener :: tokensOf init) ++ e.tokens ++ (tokensOf rest ++ closer.toList) := by
    simp [tokens]
  exact within_of_laidOut h hsplit

/-! ### Open lists -/

/-- No list in an expression is open. -/
def Closed (e : Expr) : Prop := ∀ opener items, .list opener items none ∉ e.parts

/-- **Nothing is open in a finished expression.** -/
theorem Finished.closed (h : e.Finished) : e.Closed := by
  intro opener items hlist
  rcases h.of_mem_parts hlist with hw | ⟨t, ht, -⟩
  · cases hw
  · cases ht

/-- An expression in which nothing is open, and no token is stray, is complete. -/
theorem Closed.complete : ∀ {e : Expr}, e.Closed → (∀ t, .stray t ∉ e.parts) → e.complete = true
  | .list opener items none, h, _ => absurd (by simp [parts]) (h opener items)
  | .list _ _ (some _), _, _ => rfl
  | .quoted style mark inner, h, hs => by
    have hinner : ∀ f ∈ inner.parts, f ∈ (quoted style mark inner).parts :=
      fun f hf => List.mem_cons_of_mem _ hf
    have hclosed : inner.Closed := fun opener items hf => h opener items (hinner _ hf)
    rw [Expr.complete]
    exact hclosed.complete fun t ht => hs t (hinner _ ht)
  | .atom _, _, _ | .string _, _, _ => rfl
  | .stray t, _, hs => absurd (by simp [parts]) (hs t)

/-- In a finished list nothing is open. -/
theorem Finished.closed_of_mem {opener : Token} {items : List Expr} {closer : Option Token}
    (h : (list opener items closer).Finished) (he : e ∈ items) : e.Closed := by
  intro opener' items' hlist
  exact h.closed opener' items' (mem_parts_list.mpr (.inr ⟨e, he, hlist⟩))

/-- In an open list, which is not closed itself, only the last item may be open. -/
theorem Unclosed.list_spec {opener : Token} {items : List Expr} {closer : Option Token}
    (h : (list opener items closer).Unclosed) :
    closer = none ∧ ∀ e ∈ items.dropLast, e.Closed := by
  cases h with
  | outermost ho hi _ =>
    refine ⟨rfl, fun e he => ?_⟩
    rw [List.dropLast_concat] at he
    exact Finished.closed (.inl (hi e he))
  | innermost ho hi hm =>
    refine ⟨rfl, fun e he => ?_⟩
    rcases mem_append_map_stray.mp (List.dropLast_subset _ he) with he | ⟨t, ht, rfl⟩
    · exact Finished.closed (.inl (hi e he))
    · exact Finished.closed (.inr ⟨t, rfl, .inl (hm t ht)⟩)

/-- **The parser keeps every token.** If the marks say how they quote, the trees hold all tokens but
white space and comments, in order. Every tree reaches from its first token to its last; neighbours
do not overlap, and items stand within their list; and an open list is the last expression, or in
it the last item of an open list. -/
theorem parseMany_keeps_tokens {ts : List Token}
    (hm : ∀ t ∈ ts, t.kind = .mark → ∃ style : QuoteStyle, t.text = style.mark)
    (h : Token.LaidOut ts) :
    ∃ es, parseMany ts = .ok es ∧
      tokensOf es = ts.filter (fun t => !t.isTrivia) ∧
      (∀ e ∈ partsOf es, ∃ first last, e.tokens.head? = some first ∧
        e.tokens.getLast? = some last ∧ e.range = ⟨first.start, last.stop⟩) ∧
      Apart es ∧
      (∀ e ∈ es.dropLast, e.Closed) ∧
      ∀ opener items closer, list opener items closer ∈ partsOf es →
        Apart items ∧
        (∀ e ∈ items, (list opener items closer).range.start ≤ e.range.start ∧
          e.range.stop ≤ (list opener items closer).range.stop) ∧
        (∀ e ∈ items.dropLast, e.Closed) ∧
        (closer.isSome → ∀ e ∈ items, e.Closed) := by
  have hquotes : ∀ t ∈ ts, t.kind = .mark → t.Quotes := by
    intro t ht hk
    obtain ⟨style, hs⟩ := hm t ht hk
    exact ⟨hk, style, by rw [hs, QuoteStyle.ofMark?_mark]⟩
  obtain ⟨es, hes, htokens, hparsed⟩ := exists_parseMany hquotes
  have hlaid : Token.LaidOut (tokensOf es) := htokens ▸ h.filter _
  have hpart {e : Expr} (he : e ∈ partsOf es) : Token.LaidOut e.tokens := by
    obtain ⟨pre, post, hsplit⟩ := exists_around_of_mem_partsOf he
    exact (hsplit ▸ hlaid).of_append_left.of_append_right
  refine ⟨es, hes, htokens, fun e he => exists_range_eq (hpart he), apart_of_laidOut hlaid,
    fun e he => (hparsed.finished e he).closed, fun opener items closer hlist => ?_⟩
  have hitems : Token.LaidOut (tokensOf items) := by
    have hl : Token.LaidOut ([opener] ++ (tokensOf items ++ closer.toList)) := hpart hlist
    exact hl.of_append_right.of_append_left
  have hopen : (∀ e ∈ items.dropLast, e.Closed) ∧ (closer.isSome → ∀ e ∈ items, e.Closed) := by
    obtain ⟨f, hf, hmem⟩ := mem_partsOf.mp hlist
    rcases (hparsed.built f hf).of_mem_parts hmem with hl | hl
    · exact ⟨fun e he => hl.closed_of_mem (List.dropLast_subset _ he),
        fun _ e he => hl.closed_of_mem he⟩
    · obtain ⟨rfl, hclosed⟩ := hl.list_spec
      exact ⟨hclosed, fun hsome => by cases hsome⟩
  exact ⟨apart_of_laidOut hitems, fun e he => within_list (hpart hlist) he, hopen⟩

/-- Tokens with gaps between them, an open list, and marks that quote nothing. -/
theorem parseMany_keeps_tokens_open :
    ∃ es, parseMany [⟨⟨.closer, Text.ofString ")"⟩, ⟨0, 1⟩⟩, ⟨⟨.mark, Text.ofString ",@"⟩, ⟨4, 6⟩⟩,
        ⟨⟨.opener, Text.ofString "("⟩, ⟨6, 7⟩⟩, ⟨⟨.atom, Text.ofString "a"⟩, ⟨7, 8⟩⟩,
        ⟨⟨.space, Text.ofString " "⟩, ⟨8, 9⟩⟩, ⟨⟨.mark, Text.ofString "'"⟩, ⟨9, 10⟩⟩] = .ok es ∧
      Apart es ∧ ∀ e ∈ es.dropLast, e.Closed := by
  have hlaid : Token.LaidOut [⟨⟨.closer, Text.ofString ")"⟩, ⟨0, 1⟩⟩,
      ⟨⟨.mark, Text.ofString ",@"⟩, ⟨4, 6⟩⟩, ⟨⟨.opener, Text.ofString "("⟩, ⟨6, 7⟩⟩,
      ⟨⟨.atom, Text.ofString "a"⟩, ⟨7, 8⟩⟩, ⟨⟨.space, Text.ofString " "⟩, ⟨8, 9⟩⟩,
      ⟨⟨.mark, Text.ofString "'"⟩, ⟨9, 10⟩⟩] := ⟨by decide, by decide⟩
  obtain ⟨es, hes, -, -, hapart, hclosed, -⟩ := parseMany_keeps_tokens (by
    intro t ht hk
    simp only [List.mem_cons, List.not_mem_nil, or_false] at ht
    rcases ht with rfl | rfl | rfl | rfl | rfl | rfl
    case inr.inl => exact ⟨.splicedUnquotation, by decide⟩
    case inr.inr.inr.inr.inr => exact ⟨.quotation, by decide⟩
    all_goals cases hk) hlaid
  exact ⟨es, hes, hapart, hclosed⟩

end Expr

end SexpEditing
