import SexpEditing.Expr.Basic
import SexpEditing.Proofs.Token.Order

/-!
# The shape of expression trees

What the parser promises of the trees it builds: every token has the kind that its place asks for,
and nothing but complete expressions and marks stands in a closed list.

## Main definitions

* `Expr.complete`: neither a stray token nor an unclosed list, looking through marks
* `Expr.Sound`: the kinds of the tokens, and what stands in closed lists
* `Expr.Whole`, `Expr.Unclosed`: complete and open expressions as the parser builds them
* `Expr.Built`, `Expr.Parsed`: what the parser leaves at the top level
* `Expr.parts`: an expression and everything in it

## Main results

* `Expr.range_eq`: an expression reaches from its first token to its last
* `Expr.exists_around_of_mem_partsOf`: the tokens of a part are consecutive
-/

namespace SexpEditing

theorem QuoteStyle.eq_mark_of_ofMark? {t : Text} {style : QuoteStyle} (h : ofMark? t = some style) :
    t = style.mark := by
  have hmark := List.find?_some h
  exact (beq_iff_eq.mp hmark).symm

namespace Expr

/-- A token that begins no expression. -/
def isStray : Expr → Bool
  | .stray _ => true
  | _ => false

/-- Neither a stray token nor an unclosed list, also behind marks. -/
def complete : Expr → Bool
  | .list _ _ closer => closer.isSome
  | .quoted _ _ inner => inner.complete
  | .atom _ | .string _ => true
  | .stray _ => false

/-- Fit to stand in a closed list: complete, or a mark. -/
def Settled (e : Expr) : Prop := e.complete = true ∨ ∃ t, e = .stray t ∧ t.kind = .mark

/-- Every token has the kind that its place asks for, and closed lists hold what may stand in
them. -/
inductive Sound : Expr → Prop
  | closed {opener closer : Token} {items : List Expr} (ho : opener.kind = .opener)
      (hc : closer.kind = .closer) (hs : ∀ e ∈ items, Sound e) (hi : ∀ e ∈ items, e.Settled) :
      Sound (.list opener items (some closer))
  | unclosed {opener : Token} {items : List Expr} (ho : opener.kind = .opener)
      (hs : ∀ e ∈ items, Sound e) : Sound (.list opener items none)
  | quoted {style : QuoteStyle} {mark : Token} {inner : Expr} (hm : mark.kind = .mark)
      (hi : inner.isStray = false) (hs : Sound inner) : Sound (.quoted style mark inner)
  | atom {t : Token} (h : t.kind = .atom) : Sound (.atom t)
  | string {t : Token} (h : t.kind = .string) : Sound (.string t)
  | stray {t : Token} (h : t.kind = .mark ∨ t.kind = .closer) : Sound (.stray t)

/-- A complete expression as the parser builds it: its marks say how they quote, and in a list the
marks that quote nothing come after everything else. -/
inductive Whole : Expr → Prop
  | closed {opener closer : Token} {items : List Expr} {marks : List Token}
      (ho : opener.kind = .opener) (hc : closer.kind = .closer) (hi : ∀ e ∈ items, Whole e)
      (hm : ∀ t ∈ marks, t.kind = .mark) :
      Whole (.list opener (items ++ marks.map .stray) (some closer))
  | quoted {style : QuoteStyle} {mark : Token} {inner : Expr} (hm : mark.kind = .mark)
      (hs : QuoteStyle.ofMark? mark.text = some style) (h : Whole inner) :
      Whole (.quoted style mark inner)
  | atom {t : Token} (h : t.kind = .atom) : Whole (.atom t)
  | string {t : Token} (h : t.kind = .string) : Whole (.string t)

/-- An expression that the end of the input leaves open, as the parser builds it: a list that is not
closed, whose items are complete but for the last one, which may be open as well. -/
inductive Unclosed : Expr → Prop
  | outermost {opener : Token} {items : List Expr} {last : Expr} (ho : opener.kind = .opener)
      (hi : ∀ e ∈ items, e.Whole) (h : Unclosed last) :
      Unclosed (.list opener (items ++ [last]) none)
  | innermost {opener : Token} {items : List Expr} {marks : List Token}
      (ho : opener.kind = .opener) (hi : ∀ e ∈ items, e.Whole) (hm : ∀ t ∈ marks, t.kind = .mark) :
      Unclosed (.list opener (items ++ marks.map .stray) none)
  | quoted {style : QuoteStyle} {mark : Token} {inner : Expr} (hm : mark.kind = .mark)
      (hs : QuoteStyle.ofMark? mark.text = some style) (h : Unclosed inner) :
      Unclosed (.quoted style mark inner)

/-- Fit to stand at the top level before the end of the input: a complete expression, a mark that
quotes nothing, or a closing delimiter that closes nothing. -/
def Finished (e : Expr) : Prop :=
  e.Whole ∨ ∃ t, e = .stray t ∧ (t.kind = .mark ∨ t.kind = .closer)

/-- Fit to stand at the end of the input: finished, or open. -/
def Built (e : Expr) : Prop := e.Finished ∨ e.Unclosed

/-- Top-level expressions as the parser leaves them: only the last one may be open. -/
structure Parsed (es : List Expr) : Prop where
  finished : ∀ e ∈ es.dropLast, e.Finished
  last : ∀ e ∈ es.getLast?, e.Built

mutual

/-- An expression and everything in it. -/
def parts : Expr → List Expr
  | .list opener items closer => .list opener items closer :: partsOf items
  | .quoted style mark inner => .quoted style mark inner :: inner.parts
  | .atom t => [.atom t]
  | .string t => [.string t]
  | .stray t => [.stray t]

/-- Some expressions and everything in them. -/
def partsOf : List Expr → List Expr
  | [] => []
  | e :: rest => e.parts ++ partsOf rest

end

theorem complete_of_settled {e : Expr} (h : e.Settled) (hn : e.isStray = false) :
    e.complete = true := by
  rcases h with h | ⟨t, rfl, -⟩
  · exact h
  · cases hn

theorem Whole.complete {e : Expr} (h : e.Whole) : e.complete = true := by
  induction h with
  | closed | atom | string => rfl
  | quoted _ _ _ ih => exact ih

theorem Unclosed.complete_eq {e : Expr} (h : e.Unclosed) : e.complete = false := by
  induction h with
  | outermost | innermost => rfl
  | quoted _ _ _ ih => exact ih

/-- What the parser builds and is complete is a complete expression. -/
theorem Built.whole {e : Expr} (h : e.Built) (hc : e.complete = true) : e.Whole := by
  rcases h with (h | ⟨t, rfl, -⟩) | h
  · exact h
  · cases hc
  · rw [h.complete_eq] at hc
    cases hc

/-- A closed list of complete expressions. -/
theorem Whole.list {opener closer : Token} {items : List Expr} (ho : opener.kind = .opener)
    (hc : closer.kind = .closer) (hi : ∀ e ∈ items, Whole e) :
    Whole (.list opener items (some closer)) := by
  have h : Whole (.list opener (items ++ List.map Expr.stray []) (some closer)) :=
    .closed ho hc hi (by simp)
  simpa using h

theorem Whole.isStray_eq {e : Expr} (h : e.Whole) : e.isStray = false := by
  cases h <;> rfl

theorem Unclosed.isStray_eq {e : Expr} (h : e.Unclosed) : e.isStray = false := by
  cases h <;> rfl

/-- What stands in a list before the marks that quote nothing, and these. -/
theorem mem_append_map_stray {items : List Expr} {marks : List Token} {e : Expr} :
    e ∈ items ++ marks.map .stray ↔ e ∈ items ∨ ∃ t ∈ marks, e = .stray t := by
  rw [List.mem_append, List.mem_map]
  simp only [eq_comm]

theorem Whole.sound {e : Expr} (h : e.Whole) : e.Sound := by
  induction h with
  | closed ho hc hi hm ih =>
    refine .closed ho hc (fun e he => ?_) fun e he => ?_
    · rcases mem_append_map_stray.mp he with he | ⟨t, ht, rfl⟩
      · exact ih e he
      · exact .stray (.inl (hm t ht))
    · rcases mem_append_map_stray.mp he with he | ⟨t, ht, rfl⟩
      · exact .inl (hi e he).complete
      · exact .inr ⟨t, rfl, hm t ht⟩
  | quoted hm _ h ih => exact .quoted hm h.isStray_eq ih
  | atom h => exact .atom h
  | string h => exact .string h

theorem Unclosed.sound {e : Expr} (h : e.Unclosed) : e.Sound := by
  induction h with
  | outermost ho hi _ ih =>
    refine .unclosed ho fun e he => ?_
    rcases List.mem_append.mp he with he | he
    · exact (hi e he).sound
    · obtain rfl := List.mem_singleton.mp he
      exact ih
  | innermost ho hi hm =>
    refine .unclosed ho fun e he => ?_
    rcases mem_append_map_stray.mp he with he | ⟨t, ht, rfl⟩
    · exact (hi e he).sound
    · exact .stray (.inl (hm t ht))
  | quoted hm _ h ih => exact .quoted hm h.isStray_eq ih

theorem Finished.sound {e : Expr} (h : e.Finished) : e.Sound := by
  rcases h with h | ⟨t, rfl, ht⟩
  · exact h.sound
  · exact .stray ht

theorem Built.sound {e : Expr} (h : e.Built) : e.Sound := by
  rcases h with h | h
  · exact h.sound
  · exact h.sound

theorem Parsed.built {es : List Expr} (h : Parsed es) : ∀ e ∈ es, e.Built := by
  intro e he
  obtain ⟨init, last, rfl⟩ := (List.eq_nil_or_concat es).resolve_left (List.ne_nil_of_mem he)
  rw [List.concat_eq_append] at h he
  rcases List.mem_append.mp he with he | he
  · exact .inl (h.finished e (by simpa using he))
  · exact h.last e (by simpa [eq_comm] using he)

/-! ### Tokens -/

@[simp] theorem tokensOf_nil : tokensOf [] = [] := rfl

@[simp] theorem tokensOf_cons (e : Expr) (es : List Expr) :
    tokensOf (e :: es) = e.tokens ++ tokensOf es := rfl

@[simp] theorem tokensOf_append (es fs : List Expr) :
    tokensOf (es ++ fs) = tokensOf es ++ tokensOf fs := by
  induction es with
  | nil => rfl
  | cons e es ih => simp [ih]

@[simp] theorem tokensOf_map_stray (ts : List Token) : tokensOf (ts.map Expr.stray) = ts := by
  induction ts with
  | nil => rfl
  | cons t ts ih => simp [ih, tokens]

theorem exists_tokens_eq_cons (e : Expr) : ∃ t rest, e.tokens = t :: rest := by
  cases e <;> exact ⟨_, _, rfl⟩

theorem length_tokens_pos (e : Expr) : 0 < e.tokens.length := by
  obtain ⟨t, rest, h⟩ := e.exists_tokens_eq_cons
  simp [h]

mutual

theorem exists_around_of_mem_parts {e : Expr} : ∀ {f : Expr}, e ∈ f.parts →
    ∃ pre post, f.tokens = pre ++ e.tokens ++ post
  | .list opener items closer, h => by
    rw [parts, List.mem_cons] at h
    rcases h with rfl | h
    · exact ⟨[], [], by simp⟩
    · obtain ⟨pre, post, hitems⟩ := exists_around_of_mem_partsOf h
      exact ⟨opener :: pre, post ++ closer.toList, by simp [tokens, hitems]⟩
  | .quoted style mark inner, h => by
    rw [parts, List.mem_cons] at h
    rcases h with rfl | h
    · exact ⟨[], [], by simp⟩
    · obtain ⟨pre, post, hinner⟩ := exists_around_of_mem_parts h
      exact ⟨mark :: pre, post, by simp [tokens, hinner]⟩
  | .atom t, h | .string t, h | .stray t, h => by
    obtain rfl := List.mem_singleton.mp h
    exact ⟨[], [], by simp⟩

/-- **The tokens of a part** are consecutive tokens of the whole. -/
theorem exists_around_of_mem_partsOf {e : Expr} : ∀ {es : List Expr}, e ∈ partsOf es →
    ∃ pre post, tokensOf es = pre ++ e.tokens ++ post
  | [], h => by cases h
  | f :: rest, h => by
    rw [partsOf, List.mem_append] at h
    rcases h with h | h
    · obtain ⟨pre, post, hf⟩ := exists_around_of_mem_parts h
      exact ⟨pre, post ++ tokensOf rest, by simp [hf]⟩
    · obtain ⟨pre, post, hrest⟩ := exists_around_of_mem_partsOf h
      exact ⟨f.tokens ++ pre, post, by simp [hrest]⟩

end

mutual

theorem Sound.of_mem_parts {e : Expr} : ∀ {f : Expr}, f.Sound → e ∈ f.parts → e.Sound
  | .list opener items closer, hf, h => by
    rw [parts, List.mem_cons] at h
    rcases h with rfl | h
    · exact hf
    · refine Sound.of_mem_partsOf ?_ h
      cases hf with
      | closed _ _ hs _ => exact hs
      | unclosed _ hs => exact hs
  | .quoted style mark inner, hf, h => by
    rw [parts, List.mem_cons] at h
    rcases h with rfl | h
    · exact hf
    · cases hf with
      | quoted _ _ hs => exact Sound.of_mem_parts hs h
  | .atom t, hf, h | .string t, hf, h | .stray t, hf, h => by
    obtain rfl := List.mem_singleton.mp h
    exact hf

theorem Sound.of_mem_partsOf {e : Expr} : ∀ {es : List Expr}, (∀ f ∈ es, f.Sound) →
    e ∈ partsOf es → e.Sound
  | [], _, h => by cases h
  | f :: rest, hs, h => by
    rw [partsOf, List.mem_append] at h
    rcases h with h | h
    · exact Sound.of_mem_parts (hs f (by simp)) h
    · exact Sound.of_mem_partsOf (fun g hg => hs g (by simp [hg])) h

end

/-! ### Parts of what the parser builds -/

section Parts

variable {e f : Expr} {es : List Expr}

theorem mem_partsOf : e ∈ partsOf es ↔ ∃ f ∈ es, e ∈ f.parts := by
  induction es with
  | nil => simp [partsOf]
  | cons f es ih => simp [partsOf, ih]

theorem mem_parts_list {opener : Token} {items : List Expr} {closer : Option Token} :
    e ∈ (list opener items closer).parts ↔
      e = list opener items closer ∨ ∃ f ∈ items, e ∈ f.parts := by
  rw [parts, List.mem_cons, mem_partsOf]

/-- Everything in a complete expression is complete, or a mark that quotes nothing. -/
theorem Whole.of_mem_parts (hf : f.Whole) (h : e ∈ f.parts) : e.Finished := by
  induction hf with
  | closed ho hc hi hm ih =>
    rw [mem_parts_list] at h
    rcases h with rfl | ⟨g, hg, h⟩
    · exact .inl (.closed ho hc hi hm)
    · rcases mem_append_map_stray.mp hg with hg | ⟨t, ht, rfl⟩
      · exact ih g hg h
      · obtain rfl := List.mem_singleton.mp h
        exact .inr ⟨t, rfl, .inl (hm t ht)⟩
  | quoted hm hs hw ih =>
    rw [parts, List.mem_cons] at h
    rcases h with rfl | h
    · exact .inl (.quoted hm hs hw)
    · exact ih h
  | atom hk =>
    obtain rfl := List.mem_singleton.mp h
    exact .inl (.atom hk)
  | string hk =>
    obtain rfl := List.mem_singleton.mp h
    exact .inl (.string hk)

theorem Finished.of_mem_parts (hf : f.Finished) (h : e ∈ f.parts) : e.Finished := by
  rcases hf with hf | ⟨t, rfl, ht⟩
  · exact hf.of_mem_parts h
  · obtain rfl := List.mem_singleton.mp h
    exact .inr ⟨t, rfl, ht⟩

/-- Everything in an open expression is as the parser may leave it at the end of the input. -/
theorem Unclosed.of_mem_parts (hf : f.Unclosed) (h : e ∈ f.parts) : e.Built := by
  induction hf with
  | outermost ho hi hl ih =>
    rw [mem_parts_list] at h
    rcases h with rfl | ⟨g, hg, h⟩
    · exact .inr (.outermost ho hi hl)
    · rcases List.mem_append.mp hg with hg | hg
      · exact .inl ((hi g hg).of_mem_parts h)
      · obtain rfl := List.mem_singleton.mp hg
        exact ih h
  | innermost ho hi hm =>
    rw [mem_parts_list] at h
    rcases h with rfl | ⟨g, hg, h⟩
    · exact .inr (.innermost ho hi hm)
    · rcases mem_append_map_stray.mp hg with hg | ⟨t, ht, rfl⟩
      · exact .inl ((hi g hg).of_mem_parts h)
      · obtain rfl := List.mem_singleton.mp h
        exact .inl (.inr ⟨t, rfl, .inl (hm t ht)⟩)
  | quoted hm hs hu ih =>
    rw [parts, List.mem_cons] at h
    rcases h with rfl | h
    · exact .inr (.quoted hm hs hu)
    · exact ih h

/-- **What the parser builds** has parts that it may build. -/
theorem Built.of_mem_parts (hf : f.Built) (h : e ∈ f.parts) : e.Built := by
  rcases hf with hf | hf
  · exact .inl (hf.of_mem_parts h)
  · exact hf.of_mem_parts h

end Parts

/-! ### Ranges -/

theorem join_assoc (r s t : Range) : (r.join s).join t = r.join (s.join t) := by
  simp [Range.join, Int.min_assoc, Int.max_assoc]

theorem joinItems_join (r s : Range) (es : List Expr) :
    joinItems (r.join s) es = r.join (joinItems s es) := by
  induction es generalizing s with
  | nil => rfl
  | cons e es ih => rw [joinItems, joinItems, join_assoc, ih]

mutual

/-- Joining the range of an expression is joining the ranges of its tokens. -/
theorem join_range (r : Range) : ∀ e : Expr, r.join e.range = r.joinAll (e.tokens.map (·.range))
  | .list opener items closer => by
    have hitems := joinItems_eq (r.join opener.range) items
    rw [joinItems_join] at hitems
    cases closer with
    | none => simp [range, tokens, hitems]
    | some closer =>
      simp only [range, tokens, ← join_assoc, hitems, Range.joinAll]
      simp
  | .quoted style mark inner => by
    rw [range, tokens, ← join_assoc, join_range (r.join mark.range) inner]
    rfl
  | .atom t | .string t | .stray t => rfl

theorem joinItems_eq (r : Range) : ∀ es : List Expr,
    joinItems r es = r.joinAll ((tokensOf es).map (·.range))
  | [] => rfl
  | e :: rest => by
    rw [joinItems, join_range r e, joinItems_eq _ rest]
    simp [Range.joinAll]

end

/-- The range of an expression joins those of its tokens. -/
theorem range_of_tokens {e : Expr} {t : Token} {rest : List Token} (h : e.tokens = t :: rest) :
    e.range = t.range.joinAll (rest.map (·.range)) := by
  cases e with
  | list opener items closer =>
    obtain ⟨rfl, rfl⟩ := List.cons.inj h
    cases closer <;> simp [range, joinItems_eq, Range.joinAll]
  | quoted style mark inner =>
    obtain ⟨rfl, rfl⟩ := List.cons.inj h
    rw [range, join_range]
  | atom t' | string t' | stray t' =>
    obtain ⟨rfl, rfl⟩ := List.cons.inj h
    rfl

/-- Joining tokens in order moves the stop to the last of them. -/
theorem joinAll_of_laidOut {r : Range} {ts : List Token} (h : Token.LaidOut ts)
    (hr : ∀ u ∈ ts, r.stop ≤ u.start) (hlt : r.start ≤ r.stop) :
    r.joinAll (ts.map (·.range)) = ⟨r.start, (ts.getLast?.map (·.stop)).getD r.stop⟩ := by
  induction ts generalizing r with
  | nil => rfl
  | cons u rest ih =>
    have hu := hr u (by simp)
    have hus := h.start_le_stop u (by simp)
    have hrest : Token.LaidOut rest := (show Token.LaidOut ([u] ++ rest) from h).of_append_right
    -- a token that comes later moves the stop and leaves the start
    have hjoin : r.join u.range = ⟨r.start, u.stop⟩ := by
      simp only [Token.start, Token.stop] at hu hus
      simp only [Range.join, Token.stop, Range.mk.injEq]
      omega
    rw [List.map_cons, Range.joinAll_cons, hjoin, ih hrest]
    · cases rest <;> simp [List.getLast?_cons]
    · intro v hv
      exact List.rel_of_pairwise_cons h.pairwise hv
    · simp only
      omega

/-- **An expression reaches from its first token to its last.** -/
theorem exists_range_eq {e : Expr} (h : Token.LaidOut e.tokens) :
    ∃ first last, e.tokens.head? = some first ∧ e.tokens.getLast? = some last ∧
      e.range = ⟨first.start, last.stop⟩ := by
  obtain ⟨t, rest, he⟩ := e.exists_tokens_eq_cons
  rw [he] at h
  have hle := h.start_le_stop t (by simp)
  have hrest := (show Token.LaidOut ([t] ++ rest) from h).of_append_right
  refine ⟨t, rest.getLast?.getD t, by rw [he, List.head?_cons], by rw [he, List.getLast?_cons], ?_⟩
  rw [range_of_tokens he, joinAll_of_laidOut hrest
    (fun u hu => List.rel_of_pairwise_cons h.pairwise hu) hle]
  cases rest.getLast? <;> rfl

/-- The place of an expression among other tokens. -/
theorem range_eq {e : Expr} {ts pre post : List Token} (h : Token.Ordered ts)
    (hts : ts = pre ++ e.tokens ++ post) {last : Nat}
    (hlast : last + 1 = pre.length + e.tokens.length) :
    ∃ (_ : pre.length < ts.length) (_ : last < ts.length),
      e.range = ⟨ts[pre.length].start, ts[last].stop⟩ := by
  subst hts
  obtain ⟨t, u, ht, hu, hrange⟩ := exists_range_eq h.of_append_left.of_append_right.laidOut
  have hfirst : (pre ++ e.tokens ++ post)[pre.length]? = some t := by
    rw [List.append_assoc, List.getElem?_append_right (Nat.le_refl _), Nat.sub_self,
      ← List.head?_eq_getElem?, List.head?_append, ht]
    rfl
  have hstop : (pre ++ e.tokens ++ post)[last]? = some u := by
    rw [List.getLast?_eq_getElem?] at hu
    have hpos := e.length_tokens_pos
    rw [List.append_assoc, List.getElem?_append_right (by omega),
      List.getElem?_append_left (by omega), ← hu]
    congr 1
    omega
  obtain ⟨hi, hfirst⟩ := List.getElem?_eq_some_iff.mp hfirst
  obtain ⟨hj, hstop⟩ := List.getElem?_eq_some_iff.mp hstop
  refine ⟨hi, hj, ?_⟩
  rw [hfirst, hstop, hrange]

end Expr

end SexpEditing
