import SexpEditing.Proofs.Token.Locality

/-!
# Strings and block comments without an end

A text that stops inside a string or a block comment has no next lexeme. What follows decides where
it ends, and what it ends with; units that end neither and nest nothing are just taken along.

## Main definitions

* `EndsInside`: where a string or a block comment ends
* `CodeUnit.isPlain`: the units that mean nothing in a string or a block comment

## Main results

* `Unfinished.exists_tail`: how such a text goes on
* `EndsInside.append`: plain units are taken along
-/

namespace SexpEditing

open CodeUnit

/-- The units that neither end nor nest nor escape anything in a string or a block comment. -/
def CodeUnit.isPlain (c : CodeUnit) : Bool :=
  c != quotationMark && c != backslash && c != slash && c != asterisk

/-- The end of a string or of a block comment, for a text inside it. -/
inductive EndsInside : TokenKind → (Text → Option (Text × Text)) → Prop
  | string : EndsInside .string stringTail
  | comment (depth : Nat) : EndsInside .comment (blockCommentTail depth)

theorem prepend_nil : prepend [] = id := rfl

theorem prepend_prepend (s t : Text) (split : Text × Text) :
    prepend s (prepend t split) = prepend (s ++ t) split := by
  simp [prepend]

theorem map_prepend_map_prepend (s t : Text) (split : Option (Text × Text)) :
    (split.map (prepend t)).map (prepend s) = split.map (prepend (s ++ t)) := by
  rw [Option.map_map]
  congr 1
  funext x
  exact prepend_prepend s t x

/-- A string that did not end before a line feed goes on behind it. -/
theorem stringTail_append_of_none {t : Text} (h : stringTail t = none)
    (hlast : EndsLine t) (x : Text) :
    stringTail (t ++ x) = (stringTail x).map (prepend t) := by
  fun_induction stringTail t with
  | case1 =>
    rw [prepend_nil, Option.map_id]
    rfl
  | case2 rest => cases h
  | case3 c rest ih =>
    have hx := stringTail.eq_3 c (rest ++ x)
    rw [ih (Option.map_eq_none_iff.mp h) hlast.of_cons.of_cons, map_prepend_map_prepend] at hx
    exact hx
  | case4 rest hq hb =>
    -- a backslash alone is not the last unit
    cases rest with
    | nil => rcases hlast with hlast | hlast <;> cases hlast
    | cons d rest => exact absurd rfl (hb d rest rfl)
  | case5 c rest hq hb hc ih =>
    rw [List.cons_append, stringTail.eq_4 _ _ hq (fun d r hd => absurd hd hc), if_neg hc,
      ih (Option.map_eq_none_iff.mp h) hlast.of_cons, map_prepend_map_prepend]
    rfl

/-- A block comment that did not end before a line feed goes on behind it, perhaps deeper. -/
theorem blockCommentTail_append_of_none {depth : Nat} {t : Text}
    (h : blockCommentTail depth t = none) (hlast : EndsLine t) :
    ∃ depth', ∀ x,
      blockCommentTail depth (t ++ x) = (blockCommentTail depth' x).map (prepend t) := by
  fun_induction blockCommentTail depth t with
  | case1 depth rest ih =>
    obtain ⟨depth', hd⟩ := ih (Option.map_eq_none_iff.mp h) hlast.of_cons.of_cons
    refine ⟨depth', fun x => ?_⟩
    have hx := blockCommentTail.eq_1 depth (rest ++ x)
    rw [hd, map_prepend_map_prepend] at hx
    exact hx
  | case2 rest => cases h
  | case3 rest outer ih =>
    obtain ⟨depth', hd⟩ := ih (Option.map_eq_none_iff.mp h) hlast.of_cons.of_cons
    refine ⟨depth', fun x => ?_⟩
    have hx := blockCommentTail.eq_3 (rest ++ x) outer
    rw [hd, map_prepend_map_prepend] at hx
    exact hx
  | case4 depth c rest ho hc ih =>
    obtain ⟨depth', hd⟩ := ih (Option.map_eq_none_iff.mp h) hlast.of_cons
    refine ⟨depth', fun x => ?_⟩
    -- what follows could only make a pair with the last unit, and that is a line feed
    have ho' : ∀ r, c = slash → rest ++ x ≠ asterisk :: r := by
      rintro r rfl hr
      cases rest with
      | nil => rcases hlast with hlast | hlast <;> cases hlast
      | cons d rest =>
        cases hr
        exact ho rest rfl rfl
    have hc' : ∀ r, c = asterisk → rest ++ x ≠ slash :: r := by
      rintro r rfl hr
      cases rest with
      | nil => rcases hlast with hlast | hlast <;> cases hlast
      | cons d rest =>
        cases hr
        exact hc rest rfl rfl
    rw [List.cons_append, blockCommentTail.eq_4 depth _ _ ho' hc', hd, map_prepend_map_prepend]
    rfl
  | case5 depth =>
    refine ⟨depth, fun x => ?_⟩
    rw [prepend_nil, Option.map_id]
    rfl

/-- **How an unfinished text goes on**: as a string or a comment, which takes all of it along. -/
theorem Unfinished.exists_tail {t : Text} (h : Unfinished t) (hlast : EndsLine t) :
    ∃ kind tail, EndsInside kind tail ∧ ∀ x, nextLexeme (t ++ x) =
      (tail x).map fun split => (⟨kind, t ++ split.1⟩, split.2) := by
  obtain ⟨hn, hne⟩ := h
  revert hn
  fun_cases nextLexeme t with
  | case1 => exact absurd rfl hne
  | case2 rest =>
    intro hn
    obtain ⟨depth, hd⟩ := blockCommentTail_append_of_none (Option.map_eq_none_iff.mp hn)
      hlast.of_cons.of_cons
    refine ⟨.comment, blockCommentTail depth, .comment depth, fun x => ?_⟩
    have hx : nextLexeme (slash :: asterisk :: (rest ++ x)) =
        (blockCommentTail 0 (rest ++ x)).map fun split =>
          (⟨.comment, slash :: asterisk :: split.1⟩, split.2) := rfl
    rw [hd, Option.map_map] at hx
    exact hx
  | case8 rest hs hm h₁ h₂ h₃ h₄ =>
    intro hn
    have hx (x : Text) : nextLexeme (quotationMark :: (rest ++ x)) =
        (stringTail (rest ++ x)).map fun split => (⟨.string, quotationMark :: split.1⟩, split.2) :=
      rfl
    refine ⟨.string, stringTail, .string, fun x => ?_⟩
    have hx := hx x
    rw [stringTail_append_of_none (Option.map_eq_none_iff.mp hn) hlast.of_cons,
      Option.map_map] at hx
    exact hx
  | case3 | case4 | case5 | case6 | case7 | case9 | case10 =>
    intro hn
    cases hn

theorem stringTail_append_of_plain {x : Text} (hx : x.all isPlain) (y : Text) :
    stringTail (x ++ y) = (stringTail y).map (prepend x) := by
  induction x with
  | nil =>
    rw [prepend_nil, Option.map_id]
    rfl
  | cons c x ih =>
    rw [List.all_cons, Bool.and_eq_true] at hx
    obtain ⟨hc, hx⟩ := hx
    have hq : c ≠ quotationMark := by
      rintro rfl
      cases hc
    have hb : c ≠ backslash := by
      rintro rfl
      cases hc
    rw [List.cons_append, stringTail.eq_4 _ _ hq (fun d r hd => absurd hd hb), if_neg hb, ih hx,
      map_prepend_map_prepend]
    rfl

theorem blockCommentTail_append_of_plain {depth : Nat} {x : Text} (hx : x.all isPlain) (y : Text) :
    blockCommentTail depth (x ++ y) = (blockCommentTail depth y).map (prepend x) := by
  induction x with
  | nil =>
    rw [prepend_nil, Option.map_id]
    rfl
  | cons c x ih =>
    rw [List.all_cons, Bool.and_eq_true] at hx
    obtain ⟨hc, hx⟩ := hx
    have ho : ∀ r, c = slash → x ++ y ≠ asterisk :: r := by
      rintro r rfl
      cases hc
    have ha : ∀ r, c = asterisk → x ++ y ≠ slash :: r := by
      rintro r rfl
      cases hc
    rw [List.cons_append, blockCommentTail.eq_4 depth _ _ ho ha, ih hx, map_prepend_map_prepend]
    rfl

/-- **Plain units are taken along** to the end of a string or a block comment. -/
theorem EndsInside.append {kind : TokenKind} {tail : Text → Option (Text × Text)}
    (h : EndsInside kind tail) {x : Text} (hx : x.all isPlain) (y : Text) :
    tail (x ++ y) = (tail y).map (prepend x) := by
  cases h with
  | string => exact stringTail_append_of_plain hx y
  | comment depth => exact blockCommentTail_append_of_plain hx y

theorem EndsInside.kind_eq {kind : TokenKind} {tail : Text → Option (Text × Text)}
    (h : EndsInside kind tail) : kind = .string ∨ kind = .comment := by
  cases h with
  | string => exact .inl rfl
  | comment => exact .inr rfl

theorem EndsInside.nil {kind : TokenKind} {tail : Text → Option (Text × Text)}
    (h : EndsInside kind tail) : tail [] = none := by
  cases h <;> rfl

theorem EndsInside.ne_nil {kind : TokenKind} {tail : Text → Option (Text × Text)}
    (h : EndsInside kind tail) {t : Text} {split : Text × Text} (ht : tail t = some split) :
    split.1 ≠ [] := by
  intro hnil
  cases h with
  | string =>
    have := stringTail_ends ht
    rw [hnil] at this
    cases this
  | comment depth =>
    have := blockCommentTail_ends ht
    rw [hnil] at this
    cases this

/-- An unfinished text stays so when plain units follow. -/
theorem Unfinished.append {t : Text} (h : Unfinished t) (hlast : EndsLine t)
    {x : Text} (hx : x.all isPlain) : Unfinished (t ++ x) := by
  obtain ⟨kind, tail, htail, hnext⟩ := h.exists_tail hlast
  refine ⟨?_, by simp [h.2]⟩
  have := htail.append hx []
  rw [List.append_nil, htail.nil] at this
  rw [hnext, this]
  rfl

end SexpEditing
