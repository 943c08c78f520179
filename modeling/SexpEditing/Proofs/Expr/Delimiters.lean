import SexpEditing.Proofs.Expr.Layout
import SexpEditing.Proofs.Expr.Units
import SexpEditing.Proofs.Token.Nesting

/-!
# Delimiters in trees

The index of a text pairs delimiters with a stack of openers, and the parser builds lists with a
stack of its own. Both agree: two delimiters match if they are those of a closed list, an opener
that nothing closes begins a list that is not closed, and a closing delimiter that closes nothing is
a stray token. Each of the three is read off the tokens around a node; conversely every delimiter
belongs to a node of one of these three kinds.

## Main definitions

* `Matching.ClosesNothing`, `Matching.OpensNothing`: what a run of kinds does to the stack
* `Expr.BoundedBy`: the node of a delimiter

## Main results

* `Expr.exists_matches_of_mem_partsOf`, `Expr.Parsed.exists_unclosed`,
  `Expr.Parsed.exists_stray`: the delimiters of a node
* `Expr.Sound.exists_bounded`: every delimiter has a node
* `TokenIndex.partners_of_trees`: partners and trees
-/

namespace SexpEditing

open Matching Token

namespace Matching

/-! ### What a run of tokens does to the stack -/

/-- Read at any place, these kinds close nothing that was unclosed before. -/
def ClosesNothing (ks : List TokenKind) : Prop :=
  ∀ pre post : List TokenKind, ∀ o ∈ unclosedAt (pre ++ ks ++ post) pre.length,
    o ∈ unclosedAt (pre ++ ks ++ post) (pre.length + ks.length)

/-- Read where nothing is unclosed, these kinds leave nothing unclosed. -/
def OpensNothing (ks : List TokenKind) : Prop :=
  ∀ pre post : List TokenKind, unclosedAt (pre ++ ks ++ post) pre.length = [] →
    unclosedAt (pre ++ ks ++ post) (pre.length + ks.length) = []

variable {ks ls : List TokenKind}

theorem Balanced.closesNothing (h : Balanced ks) : ClosesNothing ks := by
  intro pre post o ho
  rw [h pre post]
  exact ho

theorem Balanced.opensNothing (h : Balanced ks) : OpensNothing ks := by
  intro pre post hnil
  rw [h pre post, hnil]

theorem closesNothing_opener : ClosesNothing [.opener] := by
  intro pre post o ho
  have hk : (pre ++ [TokenKind.opener] ++ post)[pre.length]? = some .opener := by simp
  show o ∈ unclosedAt _ (pre.length + 1)
  rw [unclosedAt_succ_of_opener hk]
  exact List.mem_cons_of_mem _ ho

theorem opensNothing_closer : OpensNothing [.closer] := by
  intro pre post hnil
  have hk : (pre ++ [TokenKind.closer] ++ post)[pre.length]? = some .closer := by simp
  show unclosedAt _ (pre.length + 1) = []
  rw [unclosedAt_succ_of_closer hk, hnil]
  rfl

theorem ClosesNothing.append (hk : ClosesNothing ks) (hl : ClosesNothing ls) :
    ClosesNothing (ks ++ ls) := by
  intro pre post o ho
  have h₁ := hk pre (ls ++ post) o
  have h₂ := hl (pre ++ ks) post o
  simp only [List.length_append, List.append_assoc] at ho h₁ h₂ ⊢
  rw [← Nat.add_assoc]
  exact h₂ (h₁ ho)

theorem OpensNothing.append (hk : OpensNothing ks) (hl : OpensNothing ls) :
    OpensNothing (ks ++ ls) := by
  intro pre post hnil
  have h₁ := hk pre (ls ++ post)
  have h₂ := hl (pre ++ ks) post
  simp only [List.length_append, List.append_assoc] at hnil h₁ h₂ ⊢
  rw [← Nat.add_assoc]
  exact h₂ (h₁ hnil)

/-- An opener after which nothing more is closed has no partner. -/
theorem ClosesNothing.not_matches (h : ClosesNothing ks) (pre : List TokenKind) (c : Nat) :
    ¬Matches (pre ++ .opener :: ks) pre.length c := by
  intro hm
  have hk : (pre ++ .opener :: ks)[pre.length]? = some .opener := by simp
  have hopen := h (pre ++ [.opener]) [] pre.length
  rw [List.append_nil, List.append_assoc, List.length_append, List.length_singleton,
    List.singleton_append, unclosedAt_succ_of_opener hk] at hopen
  -- it lies on the stack to the end, but a closing delimiter would have taken it away
  have hlt := hm.closer_lt
  rw [List.length_append, List.length_cons] at hlt
  exact hm.not_mem_unclosedAt (by omega) (hopen List.mem_cons_self)

/-- A closing delimiter before which everything is closed has no partner. -/
theorem OpensNothing.not_matches (h : OpensNothing ks) (post : List TokenKind) (o : Nat) :
    ¬Matches (ks ++ post) o ks.length := by
  intro hm
  have hnil := h [] post rfl
  rw [List.nil_append, List.length_nil, Nat.zero_add] at hnil
  have hhead := hm.2
  rw [hnil] at hhead
  cases hhead

end Matching

namespace Expr

variable {e : Expr} {es items : List Expr} {marks : List Token}

/-! ### The delimiters of a node -/

/-- Complete items are balanced, and so are marks that quote nothing. -/
theorem balanced_items (hi : ∀ e ∈ items, e.Whole) (hm : ∀ t ∈ marks, t.kind = .mark) :
    Balanced ((tokensOf (items ++ marks.map .stray)).map (·.kind)) := by
  apply balanced_tokensOf
  intro e he
  rcases mem_append_map_stray.mp he with he | ⟨t, ht, rfl⟩
  · exact (hi e he).sound.balanced (.inl (hi e he).complete)
  · exact (Sound.stray (.inl (hm t ht))).balanced (.inr ⟨t, rfl, hm t ht⟩)

/-- Complete items, and a last one that closes nothing. -/
theorem closesNothing_concat {last : Expr} (hi : ∀ e ∈ items, e.Whole)
    (hl : ClosesNothing last.kinds) :
    ClosesNothing ((tokensOf (items ++ [last])).map (·.kind)) := by
  have hmarks : ∀ t ∈ ([] : List Token), t.kind = .mark := by simp
  have hitems := balanced_items hi hmarks
  rw [List.map_nil, List.append_nil] at hitems
  rw [tokensOf_append, List.map_append, tokensOf_cons, tokensOf_nil, List.append_nil]
  exact hitems.closesNothing.append hl

theorem Unclosed.closesNothing (h : e.Unclosed) : ClosesNothing e.kinds := by
  induction h with
  | outermost ho hi _ ih =>
    rw [kinds, tokens, List.map_cons, ho, Option.toList_none, List.append_nil]
    exact closesNothing_opener.append (closesNothing_concat hi ih)
  | innermost ho hi hm =>
    rw [kinds, tokens, List.map_cons, ho, Option.toList_none, List.append_nil]
    exact closesNothing_opener.append (balanced_items hi hm).closesNothing
  | quoted hm _ _ ih =>
    rw [kinds_quoted hm]
    have hmark : Balanced [TokenKind.mark] := balanced_singleton (by decide) (by decide)
    exact hmark.closesNothing.append ih

/-- Behind the opener of a list that is not closed, nothing more is closed. -/
theorem Unclosed.closesNothing_items {opener : Token} {closer : Option Token}
    (h : (list opener items closer).Unclosed) :
    opener.kind = .opener ∧ ClosesNothing ((tokensOf items).map (·.kind)) := by
  cases h with
  | outermost ho hi hl => exact ⟨ho, closesNothing_concat hi hl.closesNothing⟩
  | innermost ho hi hm => exact ⟨ho, (balanced_items hi hm).closesNothing⟩

/-- A list that is not closed reaches to the end. -/
theorem Unclosed.exists_tokens_eq (h : e.Unclosed) {opener : Token}
    (hl : list opener items none ∈ e.parts) :
    ∃ pre, e.tokens = pre ++ opener :: tokensOf items := by
  induction h with
  | @outermost opener' items' last ho hi hlast ih =>
    rw [mem_parts_list] at hl
    rcases hl with hl | ⟨f, hf, hl⟩
    · cases hl
      exact ⟨[], by simp [tokens]⟩
    · rcases List.mem_append.mp hf with hf | hf
      · exact absurd hl (Finished.closed (.inl (hi f hf)) opener items)
      · obtain rfl := List.mem_singleton.mp hf
        obtain ⟨pre, hpre⟩ := ih hl
        exact ⟨opener' :: tokensOf items' ++ pre, by simp [tokens, hpre]⟩
  | innermost ho hi hm =>
    rw [mem_parts_list] at hl
    rcases hl with hl | ⟨f, hf, hl⟩
    · cases hl
      exact ⟨[], by simp [tokens]⟩
    · rcases mem_append_map_stray.mp hf with hf | ⟨t, ht, rfl⟩
      · exact absurd hl (Finished.closed (.inl (hi f hf)) opener items)
      · cases List.mem_singleton.mp hl
  | @quoted style mark inner hm hs hu ih =>
    rw [parts, List.mem_cons] at hl
    rcases hl with hl | hl
    · cases hl
    · obtain ⟨pre, hpre⟩ := ih hl
      exact ⟨mark :: pre, by simp [tokens, hpre]⟩

/-- The stray tokens in a complete expression are marks. -/
theorem Whole.mark_of_stray (h : e.Whole) {t : Token} (ht : stray t ∈ e.parts) :
    t.kind = .mark := by
  induction h with
  | closed ho hc hi hm ih =>
    rw [mem_parts_list] at ht
    rcases ht with ht | ⟨f, hf, ht⟩
    · cases ht
    · rcases mem_append_map_stray.mp hf with hf | ⟨u, hu, rfl⟩
      · exact ih f hf ht
      · cases List.mem_singleton.mp ht
        exact hm t hu
  | quoted hm hs hw ih =>
    rw [parts, List.mem_cons] at ht
    rcases ht with ht | ht
    · cases ht
    · exact ih ht
  | atom | string => cases List.mem_singleton.mp ht

/-- The stray tokens in an open expression are marks. -/
theorem Unclosed.mark_of_stray (h : e.Unclosed) {t : Token} (ht : stray t ∈ e.parts) :
    t.kind = .mark := by
  induction h with
  | outermost ho hi hl ih =>
    rw [mem_parts_list] at ht
    rcases ht with ht | ⟨f, hf, ht⟩
    · cases ht
    · rcases List.mem_append.mp hf with hf | hf
      · exact (hi f hf).mark_of_stray ht
      · obtain rfl := List.mem_singleton.mp hf
        exact ih ht
  | innermost ho hi hm =>
    rw [mem_parts_list] at ht
    rcases ht with ht | ⟨f, hf, ht⟩
    · cases ht
    · rcases mem_append_map_stray.mp hf with hf | ⟨u, hu, rfl⟩
      · exact (hi f hf).mark_of_stray ht
      · cases List.mem_singleton.mp ht
        exact hm t hu
  | quoted hm hs hu ih =>
    rw [parts, List.mem_cons] at ht
    rcases ht with ht | ht
    · cases ht
    · exact ih ht

theorem opensNothing_of_finished (h : ∀ e ∈ es, e.Finished) :
    OpensNothing ((tokensOf es).map (·.kind)) := by
  induction es with
  | nil => exact balanced_nil.opensNothing
  | cons e es ih =>
    rw [tokensOf_cons, List.map_append]
    refine OpensNothing.append ?_ (ih fun f hf => h f (List.mem_cons_of_mem e hf))
    show OpensNothing e.kinds
    rcases h e List.mem_cons_self with hw | ⟨t, rfl, hk | hk⟩
    · exact (hw.sound.balanced (.inl hw.complete)).opensNothing
    · exact ((Sound.stray (.inl hk)).balanced (.inr ⟨t, rfl, hk⟩)).opensNothing
    · -- a closing delimiter finds nothing to close
      rw [kinds, tokens, List.map_singleton, hk]
      exact opensNothing_closer

/-- **The delimiters of a closed list** match. -/
theorem exists_matches_of_mem_partsOf (hs : ∀ e ∈ es, e.Sound) {opener closer : Token}
    (hl : list opener items (some closer) ∈ partsOf es) :
    ∃ i j, (tokensOf es)[i]? = some opener ∧ (tokensOf es)[j]? = some closer ∧
      Matches ((tokensOf es).map (·.kind)) i j := by
  obtain ⟨pre, post, htokens⟩ := exists_around_of_mem_partsOf hl
  have hsound := Sound.of_mem_partsOf hs hl
  cases hsound with
  | closed ho hc hitems hsettled =>
    have hb : Balanced ((tokensOf items).map (·.kind)) :=
      balanced_tokensOf fun e he => (hitems e he).balanced (hsettled e he)
    have hm := hb.matches (pre.map (·.kind)) (post.map (·.kind))
    have hkinds : (tokensOf es).map (·.kind) = pre.map (·.kind) ++
        (.opener :: (tokensOf items).map (·.kind) ++ [.closer]) ++ post.map (·.kind) := by
      simp [htokens, tokens, ho, hc]
    rw [← hkinds, List.length_map, List.length_map] at hm
    refine ⟨_, _, ?_, ?_, hm⟩
    · simp [htokens, tokens]
    · have hfront : tokensOf es = (pre ++ opener :: tokensOf items) ++ closer :: post := by
        simp [htokens, tokens]
      have hlen : pre.length + (tokensOf items).length + 1 =
          (pre ++ opener :: tokensOf items).length := by
        simp [Nat.add_assoc]
      rw [hfront, hlen, List.getElem?_append_right (Nat.le_refl _), Nat.sub_self,
        List.getElem?_cons_zero]

namespace Parsed

/-- Only the last of the expressions can hold a list that is not closed. -/
theorem finished_of_append {front back : List Expr} (h : Parsed (front ++ e :: back)) :
    (∀ f ∈ front, f.Finished) ∧ (back ≠ [] → e.Finished) := by
  constructor
  · intro f hf
    apply h.finished
    rw [List.dropLast_append_of_ne_nil (List.cons_ne_nil e back)]
    exact List.mem_append_left _ hf
  · intro hback
    apply h.finished
    rw [List.dropLast_append_of_ne_nil (List.cons_ne_nil e back),
      List.dropLast_cons_of_ne_nil hback]
    exact List.mem_append_right _ List.mem_cons_self

/-- **The opener of a list that is not closed** has no partner. -/
theorem exists_unclosed (h : Parsed es) {opener : Token}
    (hl : list opener items none ∈ partsOf es) :
    ∃ i, (tokensOf es)[i]? = some opener ∧ ∀ j, ¬Matches ((tokensOf es).map (·.kind)) i j := by
  obtain ⟨f, hf, hmem⟩ := mem_partsOf.mp hl
  obtain ⟨front, back, rfl⟩ := List.append_of_mem hf
  have hbuilt := h.built f hf
  have hnot : ¬f.Finished := fun hfin => hfin.closed opener items hmem
  -- the list is in the last expression, and comes last in it
  have hback : back = [] := Decidable.of_not_not fun hne => hnot (h.finished_of_append.2 hne)
  subst hback
  have hopen := hbuilt.resolve_left hnot
  obtain ⟨pre, hpre⟩ := hopen.exists_tokens_eq hmem
  have hlist : (list opener items none).Unclosed := by
    rcases hopen.of_mem_parts hmem with hfin | hunclosed
    · exact absurd (List.mem_cons_self) (hfin.closed opener items)
    · exact hunclosed
  obtain ⟨hk, hnothing⟩ := hlist.closesNothing_items
  have htokens : tokensOf (front ++ [f]) = (tokensOf front ++ pre) ++ opener :: tokensOf items := by
    simp [hpre]
  refine ⟨(tokensOf front ++ pre).length, by simp [htokens], fun j => ?_⟩
  have hnone := hnothing.not_matches ((tokensOf front ++ pre).map (·.kind)) j
  rw [htokens, List.map_append, List.map_cons, hk]
  rwa [List.length_map] at hnone

/-- **A closing delimiter that is a stray token** has no partner. -/
theorem exists_stray (h : Parsed es) {closer : Token} (hk : closer.kind = .closer)
    (hl : stray closer ∈ partsOf es) :
    ∃ j, (tokensOf es)[j]? = some closer ∧ ∀ i, ¬Matches ((tokensOf es).map (·.kind)) i j := by
  obtain ⟨f, hf, hmem⟩ := mem_partsOf.mp hl
  have hne : closer.kind ≠ .mark := by simp [hk]
  -- it stands at the top level, since inside expressions only marks are stray
  have htop : f = stray closer := by
    rcases h.built f hf with (hw | ⟨t, rfl, -⟩) | hu
    · exact absurd (hw.mark_of_stray hmem) hne
    · exact (List.mem_singleton.mp hmem).symm
    · exact absurd (hu.mark_of_stray hmem) hne
  subst htop
  obtain ⟨front, back, rfl⟩ := List.append_of_mem hf
  have hnothing := opensNothing_of_finished h.finished_of_append.1
  have htokens : tokensOf (front ++ stray closer :: back) =
      tokensOf front ++ closer :: tokensOf back := by
    simp [tokens]
  refine ⟨(tokensOf front).length, by simp [htokens], fun i => ?_⟩
  have hnone := hnothing.not_matches ((closer :: tokensOf back).map (·.kind)) i
  rw [htokens, List.map_append]
  rwa [List.length_map] at hnone

end Parsed

/-! ### The node of a delimiter -/

/-- A list that the token opens or closes, or the token itself as a stray one. -/
inductive BoundedBy (t : Token) : Expr → Prop
  | opens (items : List Expr) (closer : Option Token) : BoundedBy t (.list t items closer)
  | closes (opener : Token) (items : List Expr) : BoundedBy t (.list opener items (some t))
  | stray : BoundedBy t (.stray t)

theorem mem_tokensOf {t : Token} : t ∈ tokensOf es ↔ ∃ e ∈ es, t ∈ e.tokens := by
  induction es with
  | nil => simp
  | cons e es ih => simp [ih]

/-- A node of an item is a node of the list. -/
theorem exists_bounded_of_mem_items {t opener : Token} {closer : Option Token}
    (ih : ∀ e ∈ items, t ∈ e.tokens → ∃ f ∈ e.parts, BoundedBy t f) (ht : t ∈ tokensOf items) :
    ∃ f ∈ (list opener items closer).parts, BoundedBy t f := by
  obtain ⟨e, he, hte⟩ := mem_tokensOf.mp ht
  obtain ⟨f, hf, hb⟩ := ih e he hte
  exact ⟨f, mem_parts_list.mpr (.inr ⟨e, he, hf⟩), hb⟩

/-- **Every delimiter belongs to a node.** -/
theorem Sound.exists_bounded (h : e.Sound) {t : Token} (ht : t ∈ e.tokens)
    (hk : t.kind = .opener ∨ t.kind = .closer) : ∃ f ∈ e.parts, BoundedBy t f := by
  have hne {k : TokenKind} (ho : k ≠ .opener) (hc : k ≠ .closer) : t.kind ≠ k := by
    rintro rfl
    exact hk.elim ho hc
  induction h with
  | @closed opener closer items ho hc hs hi ih =>
    rw [tokens, Option.toList_some, List.mem_cons, List.mem_append, List.mem_singleton] at ht
    rcases ht with rfl | ht | rfl
    · exact ⟨_, mem_parts_list.mpr (.inl rfl), .opens items (some closer)⟩
    · exact exists_bounded_of_mem_items ih ht
    · exact ⟨_, mem_parts_list.mpr (.inl rfl), .closes opener items⟩
  | @unclosed opener items ho hs ih =>
    rw [tokens, Option.toList_none, List.append_nil, List.mem_cons] at ht
    rcases ht with rfl | ht
    · exact ⟨_, mem_parts_list.mpr (.inl rfl), .opens items none⟩
    · exact exists_bounded_of_mem_items ih ht
  | quoted hm hi hs ih =>
    rw [tokens, List.mem_cons] at ht
    rcases ht with rfl | ht
    · exact absurd hm (hne (by decide) (by decide))
    · obtain ⟨f, hf, hb⟩ := ih ht
      exact ⟨f, List.mem_cons_of_mem _ hf, hb⟩
  | atom ha =>
    obtain rfl := List.mem_singleton.mp ht
    exact absurd ha (hne (by decide) (by decide))
  | string ha =>
    obtain rfl := List.mem_singleton.mp ht
    exact absurd ha (hne (by decide) (by decide))
  | @stray u ha =>
    obtain rfl := List.mem_singleton.mp ht
    exact ⟨.stray t, List.mem_singleton_self _, .stray⟩

section Nodes

variable (hs : ∀ e ∈ es, e.Sound) {t : Token} (ht : t ∈ tokensOf es)
include hs ht

theorem exists_bounded (hk : t.kind = .opener ∨ t.kind = .closer) :
    ∃ f ∈ partsOf es, f.Sound ∧ BoundedBy t f := by
  obtain ⟨e, he, hte⟩ := mem_tokensOf.mp ht
  obtain ⟨f, hf, hb⟩ := (hs e he).exists_bounded hte hk
  have hmem : f ∈ partsOf es := mem_partsOf.mpr ⟨e, he, hf⟩
  exact ⟨f, hmem, Sound.of_mem_partsOf hs hmem, hb⟩

/-- Every opener begins a list. -/
theorem exists_list_of_opener (hk : t.kind = .opener) :
    ∃ items closer, list t items closer ∈ partsOf es := by
  obtain ⟨f, hf, hsound, hb⟩ := exists_bounded hs ht (.inl hk)
  cases hb with
  | opens items closer => exact ⟨items, closer, hf⟩
  | closes opener items =>
    cases hsound with
    | closed ho hc => exact absurd (hk.symm.trans hc) (by decide)
  | stray =>
    cases hsound with
    | stray h => rcases h with h | h <;> exact absurd (hk.symm.trans h) (by decide)

/-- Every closing delimiter ends a list, or is a stray token. -/
theorem exists_list_of_closer (hk : t.kind = .closer) :
    (∃ opener items, list opener items (some t) ∈ partsOf es) ∨ stray t ∈ partsOf es := by
  obtain ⟨f, hf, hsound, hb⟩ := exists_bounded hs ht (.inr hk)
  cases hb with
  | closes opener items => exact .inl ⟨opener, items, hf⟩
  | stray => exact .inr hf
  | opens items closer =>
    cases hsound with
    | closed ho => exact absurd (hk.symm.trans ho) (by decide)
    | unclosed ho => exact absurd (hk.symm.trans ho) (by decide)

end Nodes

/-! ### Matches and trees -/

/-- In order, no token stands at two places. -/
theorem index_unique (h : Token.Ordered (tokensOf es)) {i j : Nat} {t : Token}
    (hi : (tokensOf es)[i]? = some t) (hj : (tokensOf es)[j]? = some t) : i = j := by
  obtain ⟨hli, hti⟩ := List.getElem?_eq_some_iff.mp hi
  obtain ⟨hlj, htj⟩ := List.getElem?_eq_some_iff.mp hj
  have hbefore := h.countBefore_start hli
  rw [hti] at hbefore
  have hbefore' := h.countBefore_start hlj
  rw [htj] at hbefore'
  exact hbefore.symm.trans hbefore'

section Trees

variable (h : Parsed es) (hord : Token.Ordered (tokensOf es))
include h hord

/-- **Two delimiters match** if they are those of a closed list. -/
theorem matches_iff_list {i j : Nat} {opener closer : Token}
    (hi : (tokensOf es)[i]? = some opener) (hj : (tokensOf es)[j]? = some closer) :
    Matches ((tokensOf es).map (·.kind)) i j ↔
      ∃ items, list opener items (some closer) ∈ partsOf es := by
  have hs : ∀ e ∈ es, e.Sound := fun e he => (h.built e he).sound
  constructor
  · intro hm
    have hk : opener.kind = .opener := by simpa [hi] using hm.opener
    obtain ⟨items, other, hl⟩ := exists_list_of_opener hs (List.mem_of_getElem? hi) hk
    cases other with
    | none =>
      -- nothing closes an open list
      obtain ⟨i', hi', hnone⟩ := h.exists_unclosed hl
      obtain rfl := index_unique hord hi hi'
      exact absurd hm (hnone j)
    | some closer' =>
      obtain ⟨i', j', hi', hj', hm'⟩ := exists_matches_of_mem_partsOf hs hl
      obtain rfl := index_unique hord hi hi'
      obtain rfl := hm.closer_unique hm'
      obtain rfl := Option.some.inj (hj.symm.trans hj')
      exact ⟨items, hl⟩
  · rintro ⟨items, hl⟩
    obtain ⟨i', j', hi', hj', hm⟩ := exists_matches_of_mem_partsOf hs hl
    obtain rfl := index_unique hord hi hi'
    obtain rfl := index_unique hord hj hj'
    exact hm

/-- **An opener is left over** if it begins a list that is not closed. -/
theorem unmatched_iff_unclosed {i : Nat} {opener : Token} (hi : (tokensOf es)[i]? = some opener)
    (hk : opener.kind = .opener) :
    (∀ j, ¬Matches ((tokensOf es).map (·.kind)) i j) ↔
      ∃ items, list opener items none ∈ partsOf es := by
  have hs : ∀ e ∈ es, e.Sound := fun e he => (h.built e he).sound
  constructor
  · intro hnone
    obtain ⟨items, closer, hl⟩ := exists_list_of_opener hs (List.mem_of_getElem? hi) hk
    cases closer with
    | none => exact ⟨items, hl⟩
    | some closer =>
      obtain ⟨i', j, hi', -, hm⟩ := exists_matches_of_mem_partsOf hs hl
      obtain rfl := index_unique hord hi hi'
      exact absurd hm (hnone j)
  · rintro ⟨items, hl⟩
    obtain ⟨i', hi', hnone⟩ := h.exists_unclosed hl
    obtain rfl := index_unique hord hi hi'
    exact hnone

/-- **A closing delimiter is left over** if it is a stray token. -/
theorem unmatched_iff_stray {j : Nat} {closer : Token} (hj : (tokensOf es)[j]? = some closer)
    (hk : closer.kind = .closer) :
    (∀ i, ¬Matches ((tokensOf es).map (·.kind)) i j) ↔ stray closer ∈ partsOf es := by
  have hs : ∀ e ∈ es, e.Sound := fun e he => (h.built e he).sound
  constructor
  · intro hnone
    rcases exists_list_of_closer hs (List.mem_of_getElem? hj) hk with ⟨opener, items, hl⟩ | hl
    · obtain ⟨i, j', -, hj', hm⟩ := exists_matches_of_mem_partsOf hs hl
      obtain rfl := index_unique hord hj hj'
      exact absurd hm (hnone i)
    · exact hl
  · intro hl
    obtain ⟨j', hj', hnone⟩ := h.exists_stray hk hl
    obtain rfl := index_unique hord hj hj'
    exact hnone

end Trees

end Expr

namespace TokenIndex

/-- The kinds of the significant tokens. -/
def kinds (index : TokenIndex) : List TokenKind := index.significant.toList.map (·.kind)

theorem kinds_ofText (t : Text) : (ofText t).kinds = (significantTokens t).map (·.kind) := rfl

/-- Partners are delimiters that match. -/
theorem partnerOf_iff (t : Text) (i x : Nat) :
    (ofText t).partnerOf i = some x ↔
      Matches (ofText t).kinds i x ∨ Matches (ofText t).kinds x i :=
  partnerOf_eq_some_iff (tokenize t) i x

/-- What neither opens nor closes has no partner, and outside there is none either. -/
theorem partnerOf_eq_none (t : Text) {i : Int}
    (hi : ∀ n : Nat, DelimiterAt (ofText t).kinds n → i ≠ n) : (ofText t).partnerOf i = none := by
  cases hp : (ofText t).partnerOf i with
  | none => rfl
  | some x =>
    have hpos : 0 ≤ i := by
      apply Decidable.of_not_not
      intro hneg
      simp [partnerOf, hneg] at hp
    obtain ⟨n, rfl⟩ := Int.eq_ofNat_of_zero_le hpos
    rcases (partnerOf_iff t n x).mp hp with hm | hm
    · exact absurd rfl (hi n (.inl hm.opener))
    · exact absurd rfl (hi n (.inr hm.1))

/-- An opener is left over if nothing matches it. -/
theorem partnerOf_eq_none_iff_of_opener {t : Text} {i : Nat}
    (hi : (ofText t).kinds[i]? = some .opener) :
    (ofText t).partnerOf i = none ↔ ∀ j, ¬Matches (ofText t).kinds i j := by
  rw [Option.eq_none_iff_forall_ne_some]
  refine forall_congr' fun j => ?_
  rw [ne_eq, partnerOf_iff]
  constructor
  · intro h hm
    exact h (.inl hm)
  · rintro h (hm | hm)
    · exact h hm
    · exact absurd (hi.symm.trans hm.1) (by decide)

/-- A closing delimiter is left over if it matches nothing. -/
theorem partnerOf_eq_none_iff_of_closer {t : Text} {j : Nat}
    (hj : (ofText t).kinds[j]? = some .closer) :
    (ofText t).partnerOf j = none ↔ ∀ i, ¬Matches (ofText t).kinds i j := by
  rw [Option.eq_none_iff_forall_ne_some]
  refine forall_congr' fun i => ?_
  rw [ne_eq, partnerOf_iff]
  constructor
  · intro h hm
    exact h (.inr hm)
  · rintro h (hm | hm)
    · exact absurd (hj.symm.trans hm.opener) (by decide)
    · exact h hm

/-- **Partners and trees.** The partners that the index of a text gives are nested, and no other
partners are; nothing but a delimiter has one. The trees of the text agree: the first of two
partners opens a closed list and the other one closes it, an opener without a partner begins a list
that is not closed, and a closing delimiter without a partner is a stray token. -/
theorem partners_of_trees (t : Text) :
    IsPairing (ofText t).kinds (fun i => (ofText t).partnerOf i) ∧
    (∀ partner, IsPairing (ofText t).kinds partner →
      ∀ i : Nat, partner i = (ofText t).partnerOf i) ∧
    (∀ i : Int, (∀ n : Nat, DelimiterAt (ofText t).kinds n → i ≠ n) →
      (ofText t).partnerOf i = none) ∧
    ∃ es, Expr.ofText t = .ok es ∧
      (∀ (i j : Nat) opener closer, (ofText t).significant[i]? = some opener →
        (ofText t).significant[j]? = some closer →
        ((ofText t).partnerOf i = some j ∧ i < j ↔
          ∃ items, .list opener items (some closer) ∈ Expr.partsOf es)) ∧
      (∀ (i : Nat) opener, (ofText t).significant[i]? = some opener → opener.kind = .opener →
        ((ofText t).partnerOf i = none ↔ ∃ items, .list opener items none ∈ Expr.partsOf es)) ∧
      ∀ (j : Nat) closer, (ofText t).significant[j]? = some closer → closer.kind = .closer →
        ((ofText t).partnerOf j = none ↔ .stray closer ∈ Expr.partsOf es) := by
  obtain ⟨es, hes, htokens, hparsed⟩ := Expr.exists_parsed t
  have hord : Token.Ordered (Expr.tokensOf es) := htokens ▸ ordered_significantTokens t
  have hkinds : (ofText t).kinds = (Expr.tokensOf es).map (·.kind) := by
    rw [kinds_ofText, htokens]
  have hget (i : Nat) : (ofText t).significant[i]? = (Expr.tokensOf es)[i]? := by
    rw [htokens, ← Array.getElem?_toList]
    rfl
  have hkind {i : Nat} {u : Token} (hu : (Expr.tokensOf es)[i]? = some u) :
      (ofText t).kinds[i]? = some u.kind := by
    rw [hkinds, List.getElem?_map, hu, Option.map_some]
  refine ⟨isPairing_of_matches_iff (partnerOf_iff t), fun partner h i => ?_,
    fun i hi => partnerOf_eq_none t hi, es, hes, ?_, ?_, ?_⟩
  · apply Option.ext
    intro x
    exact (h.matches_iff i x).trans (partnerOf_iff t i x).symm
  · intro i j opener closer hi hj
    rw [hget] at hi hj
    rw [← Expr.matches_iff_list hparsed hord hi hj, ← hkinds, partnerOf_iff]
    constructor
    · rintro ⟨hm | hm, hij⟩
      · exact hm
      · exact absurd hm.lt (Nat.lt_asymm hij)
    · intro hm
      exact ⟨.inl hm, hm.lt⟩
  · intro i opener hi hk
    rw [hget] at hi
    rw [← Expr.unmatched_iff_unclosed hparsed hord hi hk, ← hkinds]
    exact partnerOf_eq_none_iff_of_opener (by rw [hkind hi, hk])
  · intro j closer hj hk
    rw [hget] at hj
    rw [← Expr.unmatched_iff_stray hparsed hord hj hk, ← hkinds]
    exact partnerOf_eq_none_iff_of_closer (by rw [hkind hj, hk])

end TokenIndex

end SexpEditing
