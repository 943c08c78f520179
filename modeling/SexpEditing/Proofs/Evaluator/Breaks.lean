import SexpEditing.Evaluator.Statement
import SexpEditing.Proofs.Token.Form

/-!
# Line breaks inside lexemes

A line break in a lexeme is written as a backslash and an n. What this does to the lexeme depends on
what stands before the break: one that nothing escapes becomes an escape itself; behind a backslash
the new backslash is the escaped unit, and the n stands by itself. In both cases the text goes on
behind the break as it did before, so a lexeme without its breaks ends where it ended.

## Main definitions

* `BreaksEscaped`: two texts that differ by their line breaks, read escape by escape
* `Lexeme.escapeBreaks`: a lexeme whose line breaks are escaped

## Main results

* `lineFeed_not_mem_escapeBreaks`, `escapeBreaks_of_not_mem`: what is left, and what stays
* `Lexeme.Formed.escapeBreaks`: a lexeme that carries structure keeps its form
* `Lexeme.Adjoins.escapeBreaks`: such lexemes may stand next to each other as before
-/

namespace SexpEditing

open CodeUnit

/-- The second text is the first one with its line breaks escaped. Each backslash of the first is
read with the unit that it escapes. -/
inductive BreaksEscaped : Text → Text → Prop
  | nil : BreaksEscaped [] []
  | loneBackslash : BreaksEscaped [backslash] [backslash]
  | escape {c : CodeUnit} {t x : Text} (hl : c ≠ lineFeed)
      (hr : c = carriageReturn → t.head? ≠ some lineFeed) (h : BreaksEscaped t x) :
      BreaksEscaped (backslash :: c :: t) (backslash :: c :: x)
  | escapedBreak {t x : Text} (h : BreaksEscaped t x) :
      BreaksEscaped (backslash :: lineFeed :: t) (backslash :: backslash :: letterN :: x)
  | escapedReturn {t x : Text} (h : BreaksEscaped t x) :
      BreaksEscaped (backslash :: carriageReturn :: lineFeed :: t)
        (backslash :: backslash :: letterN :: x)
  | lineBreak {t x : Text} (h : BreaksEscaped t x) :
      BreaksEscaped (lineFeed :: t) (backslash :: letterN :: x)
  | returnBreak {t x : Text} (h : BreaksEscaped t x) :
      BreaksEscaped (carriageReturn :: lineFeed :: t) (backslash :: letterN :: x)
  | unit {c : CodeUnit} {t x : Text} (hb : c ≠ backslash) (hl : c ≠ lineFeed)
      (hr : c = carriageReturn → t.head? ≠ some lineFeed) (h : BreaksEscaped t x) :
      BreaksEscaped (c :: t) (c :: x)

namespace Statement

/-- **No line feed is left.** -/
theorem lineFeed_not_mem_escapeBreaks (t : Text) : lineFeed ∉ escapeBreaks t := by
  fun_induction escapeBreaks t with
  | case1 => exact List.not_mem_nil
  | case2 rest ih | case3 rest ih =>
    simp only [List.mem_cons, not_or]
    exact ⟨by decide, by decide, ih⟩
  | case4 c rest hr hl ih =>
    rw [List.mem_cons, not_or]
    exact ⟨fun h => hl h.symm, ih⟩

/-- **A text without line feeds** stays as it is. -/
theorem escapeBreaks_of_not_mem {t : Text} (h : lineFeed ∉ t) : escapeBreaks t = t := by
  fun_induction escapeBreaks t with
  | case1 => rfl
  | case2 rest => exact absurd (by simp) h
  | case3 rest => exact absurd (by simp) h
  | case4 c rest hr hl ih => rw [ih fun hmem => h (List.mem_cons_of_mem c hmem)]

/-- A unit that is no white space does not change. -/
theorem escapeBreaks_cons {c : CodeUnit} (hc : c.isSpace = false) (rest : Text) :
    escapeBreaks (c :: rest) = c :: escapeBreaks rest := by
  rw [escapeBreaks.eq_4]
  · rintro r rfl
    cases hc
  · rintro rfl
    cases hc

/-- Escaping the breaks goes escape by escape, from the start of the text or from behind a
backslash. -/
theorem breaksEscaped_or (t : Text) :
    BreaksEscaped t (escapeBreaks t) ∧
      BreaksEscaped (backslash :: t) (backslash :: escapeBreaks t) := by
  fun_induction escapeBreaks t with
  | case1 => exact ⟨.nil, .loneBackslash⟩
  | case2 rest ih => exact ⟨.returnBreak ih.1, .escapedReturn ih.1⟩
  | case3 rest ih => exact ⟨.lineBreak ih.1, .escapedBreak ih.1⟩
  | case4 c rest hr hl ih =>
    have hr' : c = carriageReturn → rest.head? ≠ some lineFeed := by
      intro hc hhead
      obtain ⟨r, hrest⟩ := List.head?_eq_some_iff.mp hhead
      exact hr r hc hrest
    refine ⟨?_, .escape (fun hc => hl hc) hr' ih.1⟩
    by_cases hb : c = backslash
    · rw [hb]
      exact ih.2
    · exact .unit hb (fun hc => hl hc) hr' ih.1

theorem breaksEscaped (t : Text) : BreaksEscaped t (escapeBreaks t) := (breaksEscaped_or t).1

end Statement

namespace BreaksEscaped

variable {t x : Text}

/-- The first unit stays, unless a line break begins there. -/
theorem head?_eq_iff (h : BreaksEscaped t x) {c : CodeUnit} (hb : c ≠ backslash)
    (hc : c.isSpace = false) : x.head? = some c ↔ t.head? = some c := by
  cases h with
  | nil | loneBackslash | escape | escapedBreak | escapedReturn | unit => rfl
  | lineBreak | returnBreak =>
    refine iff_of_false (fun h => hb (Option.some.inj h).symm) fun h => ?_
    obtain rfl := Option.some.inj h
    cases hc

/-- A text escapes what follows it if it did so with its breaks. -/
theorem escapesNext_eq (h : BreaksEscaped t x) : escapesNext x = escapesNext t := by
  induction h with
  | nil => rfl
  | loneBackslash => rfl
  | escape _ _ _ ih => rw [escapesNext_escape, escapesNext_escape, ih]
  | escapedBreak _ ih =>
    rw [escapesNext_escape, escapesNext_escape, escapesNext_cons (by decide), ih]
  | escapedReturn _ ih =>
    rw [escapesNext_escape, escapesNext_escape, escapesNext_cons (by decide),
      escapesNext_cons (by decide), ih]
  | lineBreak _ ih => rw [escapesNext_escape, escapesNext_cons (by decide), ih]
  | returnBreak _ ih =>
    rw [escapesNext_escape, escapesNext_cons (by decide), escapesNext_cons (by decide), ih]
  | unit hb _ _ _ ih => rw [escapesNext_cons hb, escapesNext_cons hb, ih]

end BreaksEscaped

/-! ### Strings and atoms as a whole -/

/-- A text that is the rest of a string. -/
def EndsString (t : Text) : Prop := stringTail t = some (t, [])

theorem endsString_escape {c : CodeUnit} {t : Text} :
    EndsString (backslash :: c :: t) ↔ EndsString t := by
  have hn : stringTail (backslash :: c :: t) = (stringTail t).map (prepend [backslash, c]) :=
    stringTail.eq_3 c t
  rw [EndsString, hn, Option.map_eq_some_iff]
  constructor
  · rintro ⟨⟨tail, after⟩, hs, he⟩
    cases he
    exact hs
  · intro h
    exact ⟨_, h, rfl⟩

theorem endsString_cons {c : CodeUnit} (hq : c ≠ quotationMark) (hb : c ≠ backslash) {t : Text} :
    EndsString (c :: t) ↔ EndsString t := by
  rw [EndsString, stringTail.eq_4 c t hq (fun d r hd => absurd hd hb), if_neg hb,
    Option.map_eq_some_iff]
  constructor
  · rintro ⟨⟨tail, after⟩, hs, he⟩
    cases he
    exact hs
  · intro h
    exact ⟨_, h, rfl⟩

theorem eq_nil_of_endsString {t : Text} (h : EndsString (quotationMark :: t)) : t = [] := by
  have hn : stringTail (quotationMark :: t) = some ([quotationMark], t) := rfl
  rw [EndsString, hn] at h
  cases h
  rfl

/-- A text that is the rest of an atom. -/
def EndsAtom (t : Text) : Prop := (atomTail t).2 = []

theorem endsAtom_escape {c : CodeUnit} {t : Text} :
    EndsAtom (backslash :: c :: t) ↔ EndsAtom t := by
  rw [EndsAtom, atomTail_escape, prepend_snd, EndsAtom]

theorem endsAtom_cons {c : CodeUnit} (hb : c ≠ backslash) {t : Text} :
    EndsAtom (c :: t) ↔
      (isAtomUnit c = true ∨ c = slash ∧ t.head? ≠ some asterisk) ∧ EndsAtom t := by
  by_cases hs : c = slash ∧ t.head? = some asterisk
  · obtain ⟨rfl, ht⟩ := hs
    obtain ⟨r, rfl⟩ := List.head?_eq_some_iff.mp ht
    rw [EndsAtom, atomTail_blockComment]
    simp [isAtomUnit]
  have hs' : ∀ r, c = slash → t ≠ asterisk :: r := by
    rintro r hc rfl
    exact hs ⟨hc, rfl⟩
  rw [EndsAtom, atomTail_cons (fun d r hd => absurd hd hb) hs']
  have hcond : (isAtomUnit c || c == backslash || c == slash) = true ↔
      isAtomUnit c = true ∨ c = slash ∧ t.head? ≠ some asterisk := by
    simp only [Bool.or_eq_true, beq_iff_eq, hb, or_false]
    exact or_congr_right ⟨fun hc => ⟨hc, fun ht => hs ⟨hc, ht⟩⟩, fun hc => hc.1⟩
  split
  · next hc => rw [prepend_snd, and_iff_right (hcond.mp hc), EndsAtom]
  · next hc => exact iff_of_false (List.cons_ne_nil c t) fun h => hc (hcond.mpr h.1)

/-- A line break ends an atom, unless it is escaped. -/
theorem not_endsAtom_of_isSpace {c : CodeUnit} (hc : c.isSpace) (t : Text) :
    ¬ EndsAtom (c :: t) := by
  rw [EndsAtom, atomTail_of_isSpace hc]
  exact List.cons_ne_nil c t

namespace BreaksEscaped

variable {t x : Text}

/-- The rest of a string is one without its line breaks. -/
theorem endsString (h : BreaksEscaped t x) (ht : EndsString t) : EndsString x := by
  have hbreak {y : Text} : EndsString (letterN :: y) ↔ EndsString y :=
    endsString_cons (by decide) (by decide)
  have hfeed {y : Text} : EndsString (lineFeed :: y) ↔ EndsString y :=
    endsString_cons (by decide) (by decide)
  have hreturn {y : Text} : EndsString (carriageReturn :: y) ↔ EndsString y :=
    endsString_cons (by decide) (by decide)
  induction h with
  | nil => exact ht
  | loneBackslash => exact ht
  | escape _ _ _ ih =>
    rw [endsString_escape] at ht ⊢
    exact ih ht
  | escapedBreak _ ih =>
    rw [endsString_escape] at ht ⊢
    exact hbreak.mpr (ih ht)
  | escapedReturn _ ih =>
    rw [endsString_escape] at ht ⊢
    exact hbreak.mpr (ih (hfeed.mp ht))
  | lineBreak _ ih =>
    rw [endsString_escape]
    exact ih (hfeed.mp ht)
  | returnBreak _ ih =>
    rw [endsString_escape]
    exact ih (hfeed.mp (hreturn.mp ht))
  | @unit c t x hb _ _ h ih =>
    by_cases hq : c = quotationMark
    · -- the mark that ends the string
      subst hq
      obtain rfl := eq_nil_of_endsString ht
      cases h
      exact ht
    · exact (endsString_cons hq hb).mpr (ih ((endsString_cons hq hb).mp ht))

/-- The rest of an atom is one without its line breaks. -/
theorem endsAtom (h : BreaksEscaped t x) (ht : EndsAtom t) : EndsAtom x := by
  have hbreak {y : Text} : EndsAtom (letterN :: y) ↔ EndsAtom y := by
    rw [endsAtom_cons (by decide), and_iff_right (.inl rfl)]
  induction h with
  | nil => exact ht
  | loneBackslash => exact ht
  | escape _ _ _ ih =>
    rw [endsAtom_escape] at ht ⊢
    exact ih ht
  | escapedBreak _ ih =>
    rw [endsAtom_escape] at ht ⊢
    exact hbreak.mpr (ih ht)
  | escapedReturn =>
    -- the backslash escapes the carriage return only
    rw [endsAtom_escape] at ht
    exact absurd ht (not_endsAtom_of_isSpace rfl _)
  | lineBreak => exact absurd ht (not_endsAtom_of_isSpace rfl _)
  | returnBreak => exact absurd ht (not_endsAtom_of_isSpace rfl _)
  | unit hb _ _ h ih =>
    rw [endsAtom_cons hb] at ht ⊢
    rw [ne_eq, h.head?_eq_iff (by decide) rfl]
    exact ⟨ht.1, ih ht.2⟩

end BreaksEscaped

/-! ### Lexemes without line breaks -/

namespace Lexeme

/-- A lexeme whose line breaks are escaped. -/
def escapeBreaks (l : Lexeme) : Lexeme := ⟨l.kind, Statement.escapeBreaks l.text⟩

@[simp] theorem escapeBreaks_kind (l : Lexeme) : l.escapeBreaks.kind = l.kind := rfl

@[simp] theorem escapeBreaks_text (l : Lexeme) :
    l.escapeBreaks.text = Statement.escapeBreaks l.text := rfl

/-- A lexeme takes along what follows as it did with its line breaks. -/
theorem steady_escapeBreaks_iff (l : Lexeme) : l.escapeBreaks.Steady ↔ l.Steady := by
  rw [Steady, Steady, escapeBreaks_kind, escapeBreaks_text,
    (Statement.breaksEscaped l.text).escapesNext_eq]

/-- A lexeme that carries structure keeps its form. -/
theorem Formed.escapeBreaks {l : Lexeme} (h : l.Formed) (hl : l.kind.isTrivia = false) :
    l.escapeBreaks.Formed := by
  cases h with
  | space | lineComment | blockComment => cases hl
  | opener => exact .opener
  | closer => exact .closer
  | splicingMark => exact .splicingMark
  | @mark c hc =>
    have hspace : c.isSpace = false := by
      simp only [isMarkUnit, Bool.or_eq_true, beq_iff_eq] at hc
      rcases hc with (rfl | rfl) | rfl <;> rfl
    rw [Lexeme.escapeBreaks, Statement.escapeBreaks_cons hspace]
    exact .mark hc
  | @atom c rest hc hs ht =>
    have hspace : c.isSpace = false := by
      simp only [beginsAtom, Bool.not_eq_true', Bool.or_eq_false_iff] at hc
      exact hc.1.1.1.1.1
    have hends := (Statement.breaksEscaped (c :: rest)).endsAtom ht
    rw [Lexeme.escapeBreaks]
    rw [Statement.escapeBreaks_cons hspace] at hends ⊢
    refine .atom hc (fun r hslash hr => ?_) hends
    -- an asterisk behind the slash would have been there before
    have hhead : (Statement.escapeBreaks rest).head? = some asterisk := by rw [hr, List.head?_cons]
    rw [(Statement.breaksEscaped rest).head?_eq_iff (by decide) rfl] at hhead
    obtain ⟨r', hrest⟩ := List.head?_eq_some_iff.mp hhead
    exact hs r' hslash hrest
  | @string body hb =>
    have hends := (Statement.breaksEscaped body).endsString hb
    rw [Lexeme.escapeBreaks, Statement.escapeBreaks_cons rfl]
    exact .string hends

/-- Where a lexeme could stand before another one, it can do so without line breaks. -/
theorem Adjoins.escapeBreaks {l m : Lexeme} (h : l.Adjoins m) (hl : l.kind.isTrivia = false) :
    l.escapeBreaks.Adjoins m.escapeBreaks := by
  have hb := Statement.breaksEscaped l.text
  unfold Adjoins at h ⊢
  rw [escapeBreaks_kind, escapeBreaks_kind, escapeBreaks_text, escapeBreaks_text,
    (Statement.breaksEscaped l.text).escapesNext_eq]
  cases hk : l.kind with
  | space | comment => rw [hk] at hl; cases hl
  | opener | closer | string => trivial
  | atom => rwa [hk] at h
  | mark =>
    rw [hk] at h
    intro hcomma
    rw [ne_eq, (Statement.breaksEscaped m.text).head?_eq_iff (by decide) rfl]
    -- a comma has no line breaks
    rw [hcomma] at hb
    generalize l.text = t at h hb
    cases hb with
    | unit _ _ _ hb =>
      cases hb
      exact h rfl

end Lexeme

end SexpEditing
