import SexpEditing.Proofs.Evaluator.Collapse
import SexpEditing.Proofs.Expr.Corresponding

/-!
# The meaning of collapsed code

Collapsed code is read as trees of the same shape as the code. A string in it has the value that the
string of the code has when its line breaks are plain line feeds, as long as no backslash escapes
one of them: an escaped line break stands for itself, but the two units written in its place, behind
that backslash, stand for a backslash and an n.

## Main definitions

* `Statement.plainBreaks`: a text whose line breaks are plain line feeds
* `EscapesBreak`: a backslash of a text escapes a line break
* `Lexeme.SameMeaning`: two lexemes mean the same
* `Lexeme.KeepsMeaning`: a lexeme means the same as another one whose line breaks are plain

## Main results

* `BreaksEscaped.unescapeAll_eq`: the value of a string without its line breaks
* `Statement.collapse_keeps_trees`: the trees of collapsed code
* `Statement.collapse_changes_trees`: code whose strings or atoms change
-/

namespace SexpEditing

open CodeUnit

namespace Statement

/-- A text without the carriage returns that stand before line feeds. -/
def plainBreaks : Text → Text
  | [] => []
  | carriageReturn :: lineFeed :: rest => lineFeed :: plainBreaks rest
  | c :: rest => c :: plainBreaks rest

theorem plainBreaks_cons {c : CodeUnit} {rest : Text}
    (hr : c = carriageReturn → rest.head? ≠ some lineFeed) :
    plainBreaks (c :: rest) = c :: plainBreaks rest := by
  refine plainBreaks.eq_3 c rest fun r hc hrest => ?_
  rw [hrest] at hr
  exact hr hc rfl

theorem plainBreaks_cons_of_ne {c : CodeUnit} (hc : c ≠ carriageReturn) (rest : Text) :
    plainBreaks (c :: rest) = c :: plainBreaks rest :=
  plainBreaks_cons fun h => absurd h hc

theorem plainBreaks_ne_nil {t : Text} (h : t ≠ []) : plainBreaks t ≠ [] := by
  fun_cases plainBreaks t with
  | case1 => exact h
  | case2 | case3 => exact List.cons_ne_nil _ _

end Statement

/-- Somewhere in a text a backslash escapes a line break: a line feed, or a carriage return that
stands before one. -/
def EscapesBreak (t : Text) : Prop :=
  ∃ before after, escapesNext before = true ∧
    (t = before ++ lineFeed :: after ∨ t = before ++ carriageReturn :: lineFeed :: after)

/-- Escapes are read behind a text as they are without it, if it escapes nothing itself. -/
theorem EscapesBreak.append_left {f t : Text} (h : EscapesBreak t)
    (hf : ∀ before, escapesNext (f ++ before) = escapesNext before) : EscapesBreak (f ++ t) := by
  obtain ⟨before, after, hesc, ht⟩ := h
  refine ⟨f ++ before, after, (hf before).trans hesc, ?_⟩
  rw [List.append_assoc, List.append_assoc]
  exact ht.imp (congrArg (f ++ ·)) (congrArg (f ++ ·))

theorem EscapesBreak.escape {t : Text} (h : EscapesBreak t) (c : CodeUnit) :
    EscapesBreak (backslash :: c :: t) :=
  EscapesBreak.append_left (f := [backslash, c]) h (escapesNext_escape c)

theorem EscapesBreak.cons {t : Text} (h : EscapesBreak t) {c : CodeUnit} (hc : c ≠ backslash) :
    EscapesBreak (c :: t) :=
  EscapesBreak.append_left (f := [c]) h (escapesNext_cons hc)

/-! ### The value of a string -/

theorem unescapeAll_escape (c : CodeUnit) (rest : Text) :
    unescapeAll (backslash :: c :: rest) = unescape c :: unescapeAll rest :=
  unescapeAll.eq_2 c rest

theorem unescapeAll_cons {c : CodeUnit} (hc : c ≠ backslash) (rest : Text) :
    unescapeAll (c :: rest) = c :: unescapeAll rest :=
  unescapeAll.eq_3 c rest fun _ _ h => absurd h hc

theorem unescapeAll_dropLast_escape (c : CodeUnit) {t : Text} (h : t ≠ []) :
    unescapeAll (backslash :: c :: t).dropLast = unescape c :: unescapeAll t.dropLast := by
  rw [List.dropLast_cons_of_ne_nil (List.cons_ne_nil c t), List.dropLast_cons_of_ne_nil h,
    unescapeAll_escape]

theorem unescapeAll_dropLast_cons {c : CodeUnit} (hc : c ≠ backslash) {t : Text} (h : t ≠ []) :
    unescapeAll (c :: t).dropLast = c :: unescapeAll t.dropLast := by
  rw [List.dropLast_cons_of_ne_nil h, unescapeAll_cons hc]

theorem EndsString.ne_nil {t : Text} (h : EndsString t) : t ≠ [] := by
  rintro rfl
  cases h

/-- **The value of a string** whose line breaks are escaped is that of the string with plain line
breaks, if none of them was escaped before. The last unit is the quotation mark that ends the
string. -/
theorem BreaksEscaped.unescapeAll_eq {t x : Text} (h : BreaksEscaped t x) (ht : EndsString t)
    (hn : ¬ EscapesBreak t) :
    unescapeAll x.dropLast = unescapeAll (Statement.plainBreaks t).dropLast := by
  induction h with
  | nil => rfl
  | loneBackslash => rfl
  | @escape c t x hl hr h ih =>
    have ht := endsString_escape.mp ht
    have hplain : Statement.plainBreaks (backslash :: c :: t) =
        backslash :: c :: Statement.plainBreaks t := by
      rw [Statement.plainBreaks_cons_of_ne (by decide), Statement.plainBreaks_cons hr]
    rw [hplain, unescapeAll_dropLast_escape c (h.endsString ht).ne_nil,
      unescapeAll_dropLast_escape c (Statement.plainBreaks_ne_nil ht.ne_nil),
      ih ht fun he => hn (he.escape c)]
  | escapedBreak => exact absurd ⟨[backslash], _, rfl, .inl rfl⟩ hn
  | escapedReturn => exact absurd ⟨[backslash], _, rfl, .inr rfl⟩ hn
  | @lineBreak t x h ih =>
    have ht := (endsString_cons (by decide) (by decide)).mp ht
    rw [unescapeAll_dropLast_escape letterN (h.endsString ht).ne_nil,
      Statement.plainBreaks_cons_of_ne (by decide),
      unescapeAll_dropLast_cons (by decide) (Statement.plainBreaks_ne_nil ht.ne_nil),
      ih ht fun he => hn (he.cons (by decide))]
    rfl
  | @returnBreak t x h ih =>
    have ht := (endsString_cons (by decide) (by decide)).mp ht
    have ht := (endsString_cons (by decide) (by decide)).mp ht
    have hplain : Statement.plainBreaks (carriageReturn :: lineFeed :: t) =
        lineFeed :: Statement.plainBreaks t :=
      Statement.plainBreaks.eq_2 t
    rw [unescapeAll_dropLast_escape letterN (h.endsString ht).ne_nil, hplain,
      unescapeAll_dropLast_cons (by decide) (Statement.plainBreaks_ne_nil ht.ne_nil),
      ih ht fun he => hn ((he.cons (by decide)).cons (by decide))]
    rfl
  | @unit c t x hb hl hr h ih =>
    rw [Statement.plainBreaks_cons hr]
    by_cases hq : c = quotationMark
    · -- the mark that ends the string is left out
      subst hq
      obtain rfl := eq_nil_of_endsString ht
      cases h
      rfl
    · have ht := (endsString_cons hq hb).mp ht
      rw [unescapeAll_dropLast_cons hb (h.endsString ht).ne_nil,
        unescapeAll_dropLast_cons hb (Statement.plainBreaks_ne_nil ht.ne_nil),
        ih ht fun he => hn (he.cons hb)]

/-! ### The meaning of lexemes -/

namespace Lexeme

/-- Two lexemes mean the same: they are of one kind, an atom has the same text, and a string the
same value. -/
def SameMeaning (l m : Lexeme) : Prop :=
  m.kind = l.kind ∧ (l.kind = .atom → m.text = l.text) ∧
    (l.kind = .string → stringValue m.text = stringValue l.text)

instance (l m : Lexeme) : Decidable (l.SameMeaning m) := inferInstanceAs (Decidable (_ ∧ _ ∧ _))

/-- The second lexeme means the same as the first one with plain line breaks, unless the first one
escapes a line break. An atom may hold line breaks only where it escapes them. -/
structure KeepsMeaning (l m : Lexeme) : Prop where
  kind_eq : m.kind = l.kind
  text_eq : l.kind ≠ .atom → l.kind ≠ .string → m.text = l.text
  atom_eq : l.kind = .atom → lineFeed ∉ l.text → m.text = l.text
  string_eq : l.kind = .string → ¬ EscapesBreak l.text →
    stringValue m.text = stringValue (Statement.plainBreaks l.text)

theorem structural_keepsMeaning : Structural KeepsMeaning where
  kind_eq h := h.kind_eq
  style_eq h hk := by rw [h.text_eq (by simp [hk]) (by simp [hk])]

/-- A lexeme that carries structure keeps its meaning when its line breaks are escaped. -/
theorem Formed.keepsMeaning {l : Lexeme} (h : l.Formed) (hl : l.kind.isTrivia = false) :
    l.KeepsMeaning l.escapeBreaks where
  kind_eq := rfl
  text_eq hatom hstring := by
    cases h with
    | space | lineComment | blockComment => cases hl
    | opener | closer | splicingMark => rfl
    | @mark c hc =>
      simp only [isMarkUnit, Bool.or_eq_true, beq_iff_eq] at hc
      rcases hc with (rfl | rfl) | rfl <;> rfl
    | atom => exact absurd rfl hatom
    | string => exact absurd rfl hstring
  atom_eq _ hn := Statement.escapeBreaks_of_not_mem hn
  string_eq hk hn := by
    cases h with
    | @string body hb =>
      have hbody : ¬ EscapesBreak body := fun he => hn (he.cons (by decide))
      rw [escapeBreaks_text, Statement.escapeBreaks_cons rfl,
        Statement.plainBreaks_cons_of_ne (by decide)]
      exact (Statement.breaksEscaped body).unescapeAll_eq hb hbody
    | _ => cases hk

end Lexeme

/-! ### The trees of collapsed code -/

namespace Statement

/-- The lexemes of collapsed code that carry structure mean what those of the code mean. -/
theorem keepsMeaning_of_collapse {code r : Text} (h : collapse code = .ok r) :
    List.Forall₂ Lexeme.KeepsMeaning (Lexeme.significant (lexemes code))
      (Lexeme.significant (lexemes r)) := by
  obtain ⟨-, rfl⟩ := collapse_eq_ok_iff.mp h
  rw [lexemes_join, significant_joinedLexemes, List.forall₂_map_right_iff, List.forall₂_same]
  intro l hl
  obtain ⟨hmem, htrivia⟩ := List.mem_filter.mp hl
  exact (formed_of_mem_lexemes hmem).keepsMeaning (by simpa using htrivia)

/-- **Collapsing keeps what code means.** Collapsed code is read as trees of the same shape. Its
atoms are those of the code, unless there are line breaks in them; and its strings have the values
that the strings of the code have with plain line breaks, unless a backslash escapes a line break in
them. -/
theorem collapse_keeps_trees {code r : Text} (h : collapse code = .ok r) :
    Expr.TreesCorrespond Lexeme.KeepsMeaning code r :=
  (Expr.treesCorrespond_iff Lexeme.structural_keepsMeaning).mpr (keepsMeaning_of_collapse h)

/-- A list with a comment, a mark, and a string with two line breaks, one of two units and one
behind an escaped backslash. -/
theorem collapse_keeps_trees_list :
    collapse (Text.ofString "(f ; g\n  'a \"b\r\nc\\\\\n\")") =
        .ok (Text.ofString "(f 'a \"b\\nc\\\\\\n\")") ∧
      Expr.TreesCorrespond Lexeme.KeepsMeaning
        (Text.ofString "(f ; g\n  'a \"b\r\nc\\\\\n\")")
        (Text.ofString "(f 'a \"b\\nc\\\\\\n\")") :=
  ⟨by decide +kernel, collapse_keeps_trees (by decide +kernel)⟩

/-- If one significant lexeme means something else, the trees do not correspond. -/
theorem not_treesCorrespond_of_zip {s t : Text}
    (h : ∃ p ∈ (Lexeme.significant (lexemes s)).zip (Lexeme.significant (lexemes t)),
      ¬ p.1.SameMeaning p.2) : ¬ Expr.TreesCorrespond Lexeme.SameMeaning s t := by
  intro hcorr
  obtain ⟨p, hp, hne⟩ := h
  exact hne (List.forall₂_zip hcorr.significant hp)

/-- **Collapsing may change what code means**: the value of a string in which a line break has two
units or is escaped, and an atom in which a line break is escaped. -/
theorem collapse_changes_trees :
    (collapse (Text.ofString "\"a\r\nb\"") = .ok (Text.ofString "\"a\\nb\"") ∧
        ¬ Expr.TreesCorrespond Lexeme.SameMeaning (Text.ofString "\"a\r\nb\"")
          (Text.ofString "\"a\\nb\"")) ∧
      (collapse (Text.ofString "\"a\\\nb\"") = .ok (Text.ofString "\"a\\\\nb\"") ∧
        ¬ Expr.TreesCorrespond Lexeme.SameMeaning (Text.ofString "\"a\\\nb\"")
          (Text.ofString "\"a\\\\nb\"")) ∧
      collapse (Text.ofString "a\\\nb") = .ok (Text.ofString "a\\\\nb") ∧
        ¬ Expr.TreesCorrespond Lexeme.SameMeaning (Text.ofString "a\\\nb")
          (Text.ofString "a\\\\nb") := by
  refine ⟨⟨by decide +kernel, ?_⟩, ⟨by decide +kernel, ?_⟩, by decide +kernel, ?_⟩
  · exact not_treesCorrespond_of_zip (by decide +kernel)
  · exact not_treesCorrespond_of_zip (by decide +kernel)
  · exact not_treesCorrespond_of_zip (by decide +kernel)

end Statement

end SexpEditing
