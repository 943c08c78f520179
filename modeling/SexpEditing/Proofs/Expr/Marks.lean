import SexpEditing.Proofs.Expr.Delimiters

/-!
# Marks that quote nothing

The unit that a motion goes over is a run of marks that quote nothing, or a complete expression of
the text. Whether there are further marks in it that quote nothing can be told from the kinds of its
tokens: such a mark stands before a closing delimiter, or at the end.

## Main definitions

* `marksQuote`: each mark among some kinds has something behind it that it can quote
* `Span.UnitTokens`: marks alone, or the tokens of a complete expression
* `Span.StandsAt`: tokens among others, by their indexes

## Main results

* `Expr.Whole.marksQuote_iff`: a complete expression without stray tokens, by its kinds
* `Span.exists_unitTokens_of_after`: the tokens of a unit
-/

namespace SexpEditing

open Matching Token

/-- No mark among some kinds stands before a closing delimiter, or at the end. -/
def marksQuote : List TokenKind → Bool
  | [] => true
  | [k] => k != .mark
  | k :: next :: rest => !(k == .mark && next == .closer) && marksQuote (next :: rest)

theorem marksQuote_cons {k : TokenKind} (hk : k ≠ .mark) (ks : List TokenKind) :
    marksQuote (k :: ks) = marksQuote ks := by
  cases ks <;> simp [marksQuote, hk]

theorem marksQuote_of_cons {k : TokenKind} {ks : List TokenKind} (h : marksQuote (k :: ks)) :
    marksQuote ks := by
  cases ks with
  | nil => rfl
  | cons next rest =>
    rw [marksQuote, Bool.and_eq_true] at h
    exact h.2

/-- Behind kinds that do not end with a mark, the others are looked at by themselves. -/
theorem marksQuote_append {ks : List TokenKind} (h : ks.getLast? ≠ some .mark)
    (ls : List TokenKind) : marksQuote (ks ++ ls) = (marksQuote ks && marksQuote ls) := by
  induction ks with
  | nil => rfl
  | cons k ks ih =>
    cases ks with
    | nil =>
      have hk : k ≠ .mark := by simpa using h
      rw [List.singleton_append, marksQuote_cons hk, marksQuote_cons hk]
      rfl
    | cons next rest =>
      rw [List.getLast?_cons_cons] at h
      rw [List.cons_append, List.cons_append, marksQuote, marksQuote, ← List.cons_append, ih h,
        Bool.and_assoc]

/-- A mark that stands before a closing delimiter, or at the end. -/
theorem marksQuote_eq_false (pre : List TokenKind) {post : List TokenKind}
    (h : ∀ k ∈ post.head?, k = .closer) : marksQuote (pre ++ .mark :: post) = false := by
  induction pre with
  | nil =>
    cases post with
    | nil => rfl
    | cons k post =>
      obtain rfl : k = .closer := h k rfl
      rfl
  | cons k pre ih =>
    rw [← Bool.not_eq_true] at ih ⊢
    exact fun hk => ih (marksQuote_of_cons hk)

/-- Marks alone quote nothing. -/
theorem marksQuote_of_all_marks {ks : List TokenKind} (hne : ks ≠ []) (h : ∀ k ∈ ks, k = .mark) :
    marksQuote ks = false := by
  obtain ⟨init, k, rfl⟩ := (List.eq_nil_or_concat ks).resolve_left hne
  rw [List.concat_eq_append] at h ⊢
  obtain rfl := h k (by simp)
  exact marksQuote_eq_false init (by simp)

namespace Expr

variable {e : Expr} {items : List Expr}

/-- A complete expression does not begin with a closing delimiter. -/
theorem Whole.exists_kinds_eq_cons (h : e.Whole) :
    ∃ k ks, e.kinds = k :: ks ∧ k ≠ .closer := by
  cases h with
  | closed ho => exact ⟨_, _, rfl, by simp [ho]⟩
  | quoted hm => exact ⟨_, _, kinds_quoted hm, by decide⟩
  | atom hk => exact ⟨_, _, rfl, by simp [hk]⟩
  | string hk => exact ⟨_, _, rfl, by simp [hk]⟩

/-- The marks in complete expressions one behind the other are looked at one expression after the
other. -/
theorem marksQuote_tokensOf (hi : ∀ e ∈ items, e.Whole) (ks : List TokenKind) :
    marksQuote ((tokensOf items).map (·.kind) ++ ks) = true ↔
      (∀ e ∈ items, marksQuote e.kinds = true) ∧ marksQuote ks = true := by
  induction items with
  | nil => simp
  | cons e items ih =>
    have hlast := (hi e (by simp)).sound.getLast?_kinds (hi e (by simp)).complete
    have hrest := ih fun f hf => hi f (by simp [hf])
    rw [tokensOf_cons, List.map_append, List.append_assoc]
    change marksQuote (e.kinds ++ _) = true ↔ _
    rw [marksQuote_append hlast, Bool.and_eq_true, hrest, List.forall_mem_cons, and_assoc]

/-- **A complete expression holds no stray token** exactly if each mark in it has something behind
it that it can quote. -/
theorem Whole.marksQuote_iff (h : e.Whole) :
    marksQuote e.kinds = true ↔ ∀ t, .stray t ∉ e.parts := by
  induction h with
  | @closed opener closer items marks ho hc hi hm ih =>
    have hkinds : (Expr.list opener (items ++ marks.map .stray) (some closer)).kinds =
        .opener :: ((tokensOf items).map (·.kind) ++ (marks.map (·.kind) ++ [.closer])) := by
      simp [kinds, tokens, ho, hc]
    have hmarks : marksQuote (marks.map (·.kind) ++ [.closer]) = true ↔ marks = [] := by
      constructor
      · intro hquote
        rcases List.eq_nil_or_concat marks with rfl | ⟨init, t, rfl⟩
        · rfl
        · have hk := hm t (by simp)
          rw [List.concat_eq_append, List.map_append, List.map_singleton, hk, List.append_assoc,
            List.singleton_append, marksQuote_eq_false _ (by simp)] at hquote
          cases hquote
      · rintro rfl
        rfl
    rw [hkinds, marksQuote_cons (by decide), marksQuote_tokensOf hi, hmarks]
    constructor
    · rintro ⟨hitems, rfl⟩ t ht
      obtain ⟨f, hf, ht⟩ := (mem_parts_list.mp ht).resolve_left (by simp)
      rw [List.map_nil, List.append_nil] at hf
      exact (ih f hf).mp (hitems f hf) t ht
    · intro hstray
      refine ⟨fun f hf => (ih f hf).mpr fun t ht => ?_, ?_⟩
      · exact hstray t (mem_parts_list.mpr (.inr ⟨f, List.mem_append_left _ hf, ht⟩))
      · refine List.eq_nil_iff_forall_not_mem.mpr fun t ht => ?_
        refine hstray t (mem_parts_list.mpr (.inr ⟨.stray t, ?_, by simp [parts]⟩))
        exact List.mem_append_right _ (List.mem_map_of_mem ht)
  | @quoted style mark inner hm hs hw ih =>
    obtain ⟨k, ks, hkinds, hk⟩ := hw.exists_kinds_eq_cons
    have hparts (t : Token) : .stray t ∈ (Expr.quoted style mark inner).parts ↔
        .stray t ∈ inner.parts := by
      simp [parts]
    rw [kinds_quoted hm, hkinds, marksQuote, ← hkinds, beq_false_of_ne hk, Bool.and_false,
      Bool.not_false, Bool.true_and, ih]
    exact forall_congr' fun t => not_congr (hparts t).symm
  | atom hk => simp [kinds, tokens, parts, marksQuote, hk]
  | string hk => simp [kinds, tokens, parts, marksQuote, hk]

/-- Marks before a complete expression quote it. -/
theorem Whole.exists_quoted (h : e.Whole) {marks : List Token} (hm : ∀ t ∈ marks, t.Quotes) :
    ∃ f : Expr, f.Whole ∧ f.tokens = marks ++ e.tokens := by
  have hquotes : ∀ t ∈ marks.reverse, t.Quotes := fun t ht => hm t (List.mem_reverse.mp ht)
  obtain ⟨f, -, htokens, hf⟩ := PartialList.exists_wrap hquotes Whole.quoted h
  rw [List.reverse_reverse] at htokens
  exact ⟨f, hf, htokens⟩

end Expr

namespace Span

open SexpEditing.Expr

/-- The tokens from the first to the last one of a unit are marks alone, or those of a complete
expression. -/
inductive UnitTokens : List Token → Prop
  | marks {us : List Token} (hne : us ≠ []) (h : ∀ t ∈ us, t.kind = .mark) : UnitTokens us
  | whole {e : Expr} (h : e.Whole) : UnitTokens e.tokens

/-- Some tokens stand among others, from one index to another. -/
def StandsAt (ts us : List Token) (first last : Nat) : Prop :=
  ∃ before after, ts = before ++ us ++ after ∧ before.length = first ∧
    first + us.length = last + 1

theorem standsAt_take_drop {ts : List Token} {first last : Nat} (hle : first ≤ last)
    (hlast : last < ts.length) : StandsAt ts ((ts.take (last + 1)).drop first) first last := by
  refine ⟨ts.take first, ts.drop (last + 1), ?_, ?_, ?_⟩
  · have htake : ts.take first = (ts.take (last + 1)).take first := by
      rw [List.take_take, Nat.min_eq_left (by omega)]
    rw [htake, List.take_append_drop, List.take_append_drop]
  · exact List.length_take_of_le (by omega)
  · rw [List.length_drop, List.length_take_of_le (by omega)]
    omega

section Unit

variable {ts : List Token} {n : Nat}

/-- A complete expression behind marks. -/
theorem exists_unitTokens_of_whole {pre post : List Token} {e : Expr}
    (hts : ts = pre ++ e.tokens ++ post) (he : e.Whole) (hn : n ≤ pre.length)
    (hm : ∀ t ∈ pre.drop n, t.Quotes) {last : Nat}
    (hlast : last + 1 = pre.length + e.tokens.length) :
    ∃ us, StandsAt ts us n last ∧ UnitTokens us := by
  obtain ⟨f, hf, htokens⟩ := he.exists_quoted hm
  refine ⟨f.tokens, ⟨pre.take n, post, ?_, List.length_take_of_le hn, ?_⟩, .whole hf⟩
  · rw [htokens, ← List.append_assoc, List.take_append_drop, hts]
  · rw [htokens, List.length_append, List.length_drop]
    omega

/-- An opener that something matches begins a closed list. -/
theorem exists_list_of_matches {t : Text} {o c : Nat}
    (h : Matches ((significantTokens t).map (·.kind)) o c) :
    ∃ (pre post : List Token) (e : Expr), significantTokens t = pre ++ e.tokens ++ post ∧
      e.Whole ∧ pre.length = o ∧ c + 1 = pre.length + e.tokens.length := by
  obtain ⟨es, -, htokens, hparsed⟩ := exists_parsed t
  have hord : Token.Ordered (tokensOf es) := htokens ▸ ordered_significantTokens t
  rw [← htokens] at h ⊢
  have hc : c < (tokensOf es).length := by simpa using h.closer_lt
  obtain ⟨opener, ho⟩ : ∃ x, (tokensOf es)[o]? = some x :=
    ⟨_, List.getElem?_eq_getElem (Nat.lt_trans h.lt hc)⟩
  obtain ⟨closer, hc⟩ : ∃ x, (tokensOf es)[c]? = some x := ⟨_, List.getElem?_eq_getElem hc⟩
  obtain ⟨items, hl⟩ := (matches_iff_list hparsed hord ho hc).mp h
  obtain ⟨f, hf, hmem⟩ := mem_partsOf.mp hl
  obtain ⟨pre, post, haround⟩ := exists_around_of_mem_partsOf hl
  refine ⟨pre, post, _, haround, ((hparsed.built f hf).of_mem_parts hmem).whole rfl, ?_, ?_⟩
  · refine index_unique hord ?_ ho
    simp [haround, tokens]
  · have hclose : pre.length + ((tokensOf items).length + 1) = c := by
      refine index_unique hord ?_ hc
      simp [haround, tokens]
    simp only [tokens, Option.toList_some, List.length_cons, List.length_append, List.length_nil]
    omega

/-- Tokens of a text that are marks say how they quote. -/
theorem quotes_of_mem_take_drop {t : Text} {n i : Nat}
    (h : ∀ j, n ≤ j → j < i → ((significantTokens t).map (·.kind))[j]? = some .mark) {x : Token}
    (hx : x ∈ ((significantTokens t).take i).drop n) : x.Quotes := by
  obtain ⟨j, hj, hx⟩ := List.getElem_of_mem hx
  rw [List.length_drop, List.length_take] at hj
  have hlt : n + j < (significantTokens t).length := by omega
  have hk := h (n + j) (by omega) (by omega)
  rw [List.getElem_drop, List.getElem_take] at hx
  rw [List.getElem?_map, List.getElem?_eq_getElem hlt, hx] at hk
  refine quotes_of_mem_tokenize (t := t) ?_ (by simpa using hk)
  exact (List.mem_filter.mp (hx ▸ List.getElem_mem hlt)).1

/-- **The tokens of a unit** that a motion goes over. -/
theorem exists_unitTokens_of_after {t : Text} {n : Nat} {u : Span}
    (h : after ((significantTokens t).map (·.kind)) n = some u) :
    ∃ us, StandsAt (significantTokens t) us u.first u.last ∧ UnitTokens us := by
  have hskip : n ≤ skipMarks ((significantTokens t).map (·.kind)) n := le_skipMarks n
  have hmarks {x : Token} (hx : x ∈ ((significantTokens t).take _).drop n) : x.Quotes :=
    quotes_of_mem_take_drop (fun _ => mark_of_lt_skipMarks) hx
  rw [after] at h
  generalize skipMarks ((significantTokens t).map (·.kind)) n = i at hskip hmarks h
  split at h
  · cases h
  · next hk =>
    split at h
    · next hlt =>
      cases h
      have hi : i < (significantTokens t).length := by
        simpa using (List.getElem?_eq_some_iff.mp hk).1
      have hstands : StandsAt _ _ n (i - 1) :=
        standsAt_take_drop (Nat.le_sub_one_of_lt hlt) (Nat.lt_of_le_of_lt (Nat.sub_le i 1) hi)
      rw [Nat.sub_add_cancel (by omega)] at hstands
      refine ⟨_, hstands, .marks ?_ fun x hx => (hmarks hx).1⟩
      rw [← List.length_pos_iff, List.length_drop, List.length_take]
      omega
    · cases h
  · next hk =>
    obtain ⟨c, hc, rfl⟩ := Option.map_eq_some_iff.mp h
    obtain ⟨pre, post, e, hts, he, hpre, hlast⟩ :=
      exists_list_of_matches (closerOf?_eq_some_iff.mp hc)
    have htake : (significantTokens t).take i = pre := by
      rw [hts, List.append_assoc, List.take_left' hpre]
    rw [htake] at hmarks
    exact exists_unitTokens_of_whole hts he (by omega) (fun x hx => hmarks hx) hlast
  · next k hc ho hk =>
    cases h
    rw [List.getElem?_map, Option.map_eq_some_iff] at hk
    obtain ⟨x, hx, hk⟩ := hk
    obtain ⟨hi, -⟩ := List.getElem?_eq_some_iff.mp hx
    have htake : (significantTokens t).take (i + 1) = (significantTokens t).take i ++ [x] := by
      rw [List.take_add_one, hx, Option.toList_some]
    have hts : significantTokens t =
        (significantTokens t).take i ++ [x] ++ (significantTokens t).drop (i + 1) := by
      rw [← htake, List.take_append_drop]
    have hlen : ((significantTokens t).take i).length = i := List.length_take_of_le (by omega)
    -- what begins neither a list nor a run of marks is one token
    have hsingle {e : Expr} (he : e.Whole) (htokens : e.tokens = [x]) :
        ∃ us, StandsAt (significantTokens t) us n i ∧ UnitTokens us :=
      exists_unitTokens_of_whole (htokens ▸ hts) he (by omega) (fun y hy => hmarks hy)
        (by rw [htokens, hlen]; rfl)
    have htrivia := (List.mem_filter.mp (List.mem_of_getElem? hx)).2
    cases hkind : x.kind with
    | opener => exact absurd (hk.symm.trans hkind) ho
    | closer => exact absurd (hk.symm.trans hkind) hc
    | space | comment => simp [Token.isTrivia, hkind, TokenKind.isTrivia] at htrivia
    | atom => exact hsingle (.atom hkind) rfl
    | string => exact hsingle (.string hkind) rfl
    | mark =>
      refine ⟨_, standsAt_take_drop hskip hi, ?_⟩
      rw [htake, List.drop_append_of_le_length (hlen.symm ▸ hskip)]
      refine .marks (by simp) fun y hy => ?_
      rcases List.mem_append.mp hy with hy | hy
      · exact (hmarks hy).1
      · obtain rfl := List.mem_singleton.mp hy
        exact hkind

end Unit

end Span

end SexpEditing
