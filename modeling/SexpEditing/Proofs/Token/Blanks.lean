import SexpEditing.Proofs.Token.Locality

/-!
# Blanks at the start of a line

A line starts where a text ends with a line feed, and blanks come next. What this text leaves
pending decides what they mean: a string or a block comment without an end holds them; otherwise
they are white space, and it does not matter how many there are. There is one exception: an atom
that the line feed belongs to goes on if there are no blanks, and ends if there are some.

## Main definitions

* `Alike`: two texts are the same as far as a following line can tell
* `Agree`: two texts hold the same significant lexemes, and go on alike

## Main results

* `Alike.append`: texts stay alike when a line with other blanks follows
* `Agree.append`, `Agree.significant_append`: what keeps the significant lexemes
* `Agree.significant_ne`: what changes them
-/

namespace SexpEditing

open CodeUnit

/-- The lexemes that carry structure. -/
def Lexeme.significant (ls : List Lexeme) : List Lexeme := ls.filter fun l => !l.kind.isTrivia

theorem map_toLexeme_significantTokens (t : Text) :
    (significantTokens t).map Token.toLexeme = Lexeme.significant (lexemes t) := by
  have hmap := Lexeme.map_toLexeme_layOut 0 (lexemes t)
  rw [Lexeme.significant, ← hmap, List.filter_map, ← tokenize, significantTokens]
  rfl

@[simp] theorem significant_append (ls ms : List Lexeme) :
    Lexeme.significant (ls ++ ms) = Lexeme.significant ls ++ Lexeme.significant ms :=
  List.filter_append ..

/-! ### White space in front -/

theorem all_isSpace_of_dropWhile {w x : Text} (hw : w.all isSpace) (hx : x.dropWhile isSpace = []) :
    (w ++ x).all isSpace := by
  have hsplit := List.takeWhile_append_dropWhile (p := isSpace) (l := x)
  rw [hx, List.append_nil] at hsplit
  rw [List.all_append, hw, ← hsplit, List.all_takeWhile]
  rfl

/-- White space carries no structure, and the rest does not depend on it. -/
theorem exists_reads_dropWhile {w x : Text} (hw : w.all isSpace) (hx : x.dropWhile isSpace ≠ []) :
    ∃ ls, Lexeme.significant ls = [] ∧ Reads (w ++ x) ls (x.dropWhile isSpace) := by
  by_cases hne : w = []
  · subst hne
    cases x with
    | nil => exact absurd rfl hx
    | cons c rest =>
      by_cases hc : c.isSpace
      · have hnext := nextLexeme_space hc rest
        rw [List.dropWhile_cons_of_pos hc] at hx ⊢
        exact ⟨_, rfl, .step hnext hx (.refl _)⟩
      · rw [List.dropWhile_cons_of_neg hc]
        exact ⟨[], rfl, .refl _⟩
  · exact ⟨_, rfl, .step (nextLexeme_spaces hw hne x) hx (.refl _)⟩

theorem lexemes_of_all_isSpace {w : Text} (hw : w.all isSpace) :
    Lexeme.significant (lexemes w) = [] := by
  by_cases hne : w = []
  · rw [hne, lexemes_of_none rfl]
    rfl
  · have hnext := nextLexeme_spaces hw hne []
    rw [List.append_nil] at hnext
    rw [lexemes_of_some hnext, List.dropWhile_nil, lexemes_of_none rfl]
    rfl

theorem pending_of_all_isSpace {w : Text} (hw : w.all isSpace) : pending w = w := by
  by_cases hne : w = []
  · rw [hne, pending_of_none rfl]
  · have hnext := nextLexeme_spaces hw hne []
    rw [List.append_nil] at hnext
    exact pending_of_last hnext

/-! ### Alike -/

/-- White space, or an atom that a line feed belongs to. -/
def Loose (t : Text) : Prop := t.all isSpace ∨ AtomSoFar t

/-- A following line cannot tell these texts apart, except by an atom that may go on. -/
def Alike (s t : Text) : Prop := s = t ∨ Loose s ∧ Loose t ∧ (AtomSoFar s ↔ AtomSoFar t)

theorem Alike.refl (t : Text) : Alike t t := .inl rfl

theorem Alike.symm {s t : Text} (h : Alike s t) : Alike t s := by
  rcases h with rfl | ⟨hs, ht, hiff⟩
  · exact .refl s
  · exact .inr ⟨ht, hs, hiff.symm⟩

theorem Alike.trans {s t u : Text} (h : Alike s t) (h' : Alike t u) : Alike s u := by
  rcases h with rfl | ⟨hs, ht, hiff⟩
  · exact h'
  · rcases h' with rfl | ⟨-, hu, hiff'⟩
    · exact .inr ⟨hs, ht, hiff⟩
    · exact .inr ⟨hs, hu, hiff.trans hiff'⟩

theorem Loose.not_unfinished {t : Text} (h : Loose t) : ¬ Unfinished t := by
  rintro ⟨hn, hne⟩
  rcases h with h | h
  · have := nextLexeme_spaces h hne []
    rw [List.append_nil, hn] at this
    cases this
  · rw [h.1] at hn
    cases hn

theorem Alike.unfinished_iff {s t : Text} (h : Alike s t) : Unfinished s ↔ Unfinished t := by
  rcases h with rfl | ⟨hs, ht, -⟩
  · exact Iff.rfl
  · exact iff_of_false hs.not_unfinished ht.not_unfinished

theorem alike_of_all_isSpace {s t : Text} (hs : s.all isSpace) (ht : t.all isSpace) : Alike s t :=
  .inr ⟨.inl hs, .inl ht, iff_of_false (fun h => h.not_all_isSpace hs)
    fun h => h.not_all_isSpace ht⟩

theorem alike_of_atomSoFar {s t : Text} (hs : AtomSoFar s) (ht : AtomSoFar t) : Alike s t :=
  .inr ⟨.inr hs, .inr ht, iff_of_true hs ht⟩

/-- White space in front of a text that ends with a line feed. -/
theorem alike_pending_of_all_isSpace {w : Text} (hw : w.all isSpace) (x : Text) :
    Alike (pending (w ++ x)) (pending x) := by
  by_cases hx : x.dropWhile isSpace = []
  · have hwx := all_isSpace_of_dropWhile hw hx
    have hxs := all_isSpace_of_dropWhile (w := []) rfl hx
    rw [List.nil_append] at hxs
    rw [pending_of_all_isSpace hwx, pending_of_all_isSpace hxs]
    exact alike_of_all_isSpace hwx hxs
  · obtain ⟨ls, -, hls⟩ := exists_reads_dropWhile hw hx
    obtain ⟨ms, -, hms⟩ := exists_reads_dropWhile (w := []) rfl hx
    rw [List.nil_append] at hms
    rw [hls.pending_eq, hms.pending_eq]
    exact .refl _

/-- Whether it goes on an atom or not, a text leaves the same pending: what could go on an atom
is made up of marks and an atom of its own. -/
theorem pending_of_atomTail {x : Text} (hlast : x.getLast? = some lineFeed) :
    ((atomTail x).2 ≠ [] → pending x = pending (atomTail x).2) ∧
      ((atomTail x).2 = [] → AtomSoFar (pending x)) := by
  induction hn : x.length using Nat.strongRecOn generalizing x with
  | _ n ih =>
    have happend := atomTail_append x
    by_cases hnil : (atomTail x).1 = []
    · -- nothing could go on an atom
      rw [hnil, List.nil_append] at happend
      rw [happend]
      refine ⟨fun _ => rfl, fun h => ?_⟩
      rw [h] at hlast
      cases hlast
    · cases x with
      | nil => cases hlast
      | cons c rest =>
        have hrest (hc : c ≠ lineFeed) : rest.getLast? = some lineFeed := by
          cases rest with
          | nil =>
            cases hlast
            exact absurd rfl hc
          | cons d rest => simpa [List.getLast?_cons_cons] using hlast
        have hne {y : Text} (hy : y.getLast? = some lineFeed) : y ≠ [] := by
          rintro rfl
          cases hy
        by_cases hsplice : ∃ r, c = comma ∧ rest = atSign :: r
        · -- a mark of two units
          obtain ⟨r, rfl, rfl⟩ := hsplice
          have hr : r.getLast? = some lineFeed := by
            have := hrest (by decide)
            cases r with
            | nil => cases this
            | cons d r => simpa [List.getLast?_cons_cons] using this
          have htail : (atomTail (comma :: atSign :: r)).2 = (atomTail r).2 := by
            have h₁ := congrArg Prod.snd (atomTail_of_isAtomUnit (c := comma) rfl (atSign :: r))
            have h₂ := congrArg Prod.snd (atomTail_of_isAtomUnit (c := atSign) rfl r)
            exact h₁.trans h₂
          have hpend : pending (comma :: atSign :: r) = pending r :=
            pending_of_step (l := ⟨.mark, [comma, atSign]⟩) rfl (hne hr)
          rw [htail, hpend]
          exact ih r.length (by rw [← hn]; simp only [List.length_cons]; omega) hr rfl
        · obtain ⟨hc, hs⟩ := of_atomTail_ne_nil hnil
          by_cases hmark : isMarkUnit c
          · -- a mark of one unit
            have hunit : isAtomUnit c := by
              simp only [isMarkUnit, Bool.or_eq_true, beq_iff_eq] at hmark
              rcases hmark with (rfl | rfl) | rfl <;> rfl
            have hnext := nextLexeme_of_isMarkUnit hmark fun r hc hr => hsplice ⟨r, hc, hr⟩
            have hr : rest.getLast? = some lineFeed := hrest (by rintro rfl; cases hmark)
            rw [atomTail_of_isAtomUnit hunit, prepend_snd, pending_of_step hnext (hne hr)]
            exact ih rest.length (by rw [← hn]; simp) hr rfl
          · -- an atom of its own
            have hnext := nextLexeme_of_beginsAtom (beginsAtom_of_not_isMarkUnit hc hmark) hs
            refine ⟨fun h => pending_of_step hnext h, fun h => ?_⟩
            rw [h] at hnext happend
            rw [List.append_nil] at happend
            rw [pending_of_last hnext]
            exact ⟨by rw [hnext, happend], hlast⟩

/-- What is pending after a line does not depend on white space at its start, nor on an atom that
may go on there. -/
theorem Loose.alike_pending {t : Text} (h : Loose t) {b : Text} (hb : b.all isSpace) {x : Text}
    (hlast : x.getLast? = some lineFeed) : Alike (pending (t ++ (b ++ x))) (pending x) := by
  rcases h with h | h
  · rw [← List.append_assoc]
    exact alike_pending_of_all_isSpace (by rw [List.all_append, h, hb]; rfl) x
  · by_cases hne : b = []
    · subst hne
      have hnext := h.nextLexeme_append x
      obtain ⟨hsame, hatom⟩ := pending_of_atomTail hlast
      rw [List.nil_append]
      by_cases hnil : (atomTail x).2 = []
      · -- all of it belongs to the atom
        rw [hnil] at hnext
        have hall := atomTail_append x
        rw [hnil, List.append_nil] at hall
        rw [hall] at hnext
        rw [pending_of_last hnext]
        refine alike_of_atomSoFar ⟨hnext, ?_⟩ (hatom hnil)
        rw [List.getLast?_append, hlast]
        rfl
      · rw [pending_of_step hnext hnil, hsame hnil]
        exact .refl _
    · rw [pending_of_step (h.nextLexeme_append_spaces hb hne x) (by simp [hne])]
      exact alike_pending_of_all_isSpace hb x

/-- **Texts stay alike** when a line follows, with other blanks unless they are inside something
without an end. -/
theorem Alike.append {s t : Text} (h : Alike (pending s) (pending t))
    (hs : EndsLine s) {b b' : Text} (hb : b.all isSpace)
    (hb' : b'.all isSpace) (hu : Unfinished (pending s) → b = b') {x : Text}
    (hlast : x.getLast? = some lineFeed) :
    Alike (pending (s ++ (b ++ x))) (pending (t ++ (b' ++ x))) := by
  have hloose : Loose (pending s) ∨ Unfinished (pending s) := by
    rcases pending_cases hs with h | h | h
    · exact .inl (.inl h)
    · exact .inl (.inr h)
    · exact .inr h
  rw [pending_append s, pending_append t]
  rcases hloose with hp | hp
  · have hq : Loose (pending t) := by
      rcases h with h | ⟨-, hq, -⟩
      · rwa [← h]
      · exact hq
    exact (hp.alike_pending hb hlast).trans (hq.alike_pending hb' hlast).symm
  · rcases h with h | ⟨hp', -, -⟩
    · rw [h, hu hp]
      exact .refl _
    · exact absurd hp hp'.not_unfinished

/-! ### Agreeing -/

/-- Two texts hold the same significant lexemes so far, and leave the same pending, or white space
both. -/
def Agree (s t : Text) : Prop :=
  ∃ ls ms, Reads s ls (pending s) ∧ Reads t ms (pending t) ∧
    Lexeme.significant ls = Lexeme.significant ms ∧
    (pending s = pending t ∨ (pending s).all isSpace ∧ (pending t).all isSpace)

theorem Agree.refl (t : Text) : Agree t t := by
  obtain ⟨ls, h⟩ := exists_reads_pending t
  exact ⟨ls, ls, h, h, rfl, .inl rfl⟩

theorem Agree.symm {s t : Text} (h : Agree s t) : Agree t s := by
  obtain ⟨ls, ms, hls, hms, hsig, hp⟩ := h
  refine ⟨ms, ls, hms, hls, hsig.symm, ?_⟩
  rcases hp with hp | ⟨hp, hp'⟩
  · exact .inl hp.symm
  · exact .inr ⟨hp', hp⟩

/-- It is enough to read the texts up to the same rest, or up to white space. -/
theorem agree_of_reads {s t r r' : Text} {ls ms : List Lexeme} (hs : Reads s ls r)
    (ht : Reads t ms r') (h : Lexeme.significant ls = Lexeme.significant ms)
    (hr : r = r' ∨ r.all isSpace ∧ r'.all isSpace) : Agree s t := by
  rcases hr with rfl | ⟨hr, hr'⟩
  · obtain ⟨ns, hns⟩ := exists_reads_pending r
    refine ⟨ls ++ ns, ms ++ ns, ?_, ?_, by simp [h], .inl (by rw [hs.pending_eq, ht.pending_eq])⟩
    · rw [hs.pending_eq]
      exact hs.trans hns
    · rw [ht.pending_eq]
      exact ht.trans hns
  · have hp := hs.pending_eq.trans (pending_of_all_isSpace hr)
    have hp' := ht.pending_eq.trans (pending_of_all_isSpace hr')
    refine ⟨ls, ms, ?_, ?_, h, .inr ?_⟩
    · rwa [hp]
    · rwa [hp']
    · rw [hp, hp']
      exact ⟨hr, hr'⟩

/-- Texts that agree hold the same significant lexemes. -/
theorem Agree.significant_eq {s t : Text} (h : Agree s t) :
    Lexeme.significant (lexemes s) = Lexeme.significant (lexemes t) := by
  obtain ⟨ls, ms, hls, hms, hsig, hp⟩ := h
  rw [hls.lexemes_eq, hms.lexemes_eq, significant_append, significant_append, hsig]
  rcases hp with hp | ⟨hp, hp'⟩
  · rw [hp]
  · rw [lexemes_of_all_isSpace hp, lexemes_of_all_isSpace hp']

/-- Agreement carries over to what the pending parts make of a line. -/
theorem Agree.of_pending {s t x y : Text} (h : Agree s t)
    (hxy : Agree (pending s ++ x) (pending t ++ y)) : Agree (s ++ x) (t ++ y) := by
  obtain ⟨ls, ms, hls, hms, hsig, -⟩ := h
  obtain ⟨ls', ms', hls', hms', hsig', hp⟩ := hxy
  refine agree_of_reads ((hls.append_right x).trans hls') ((hms.append_right y).trans hms') ?_ ?_
  · rw [significant_append, significant_append, hsig, hsig']
  · exact hp

theorem agree_of_all_isSpace {w w' : Text} (hw : w.all isSpace) (hw' : w'.all isSpace) (x : Text) :
    Agree (w ++ x) (w' ++ x) := by
  by_cases hx : x.dropWhile isSpace = []
  · exact agree_of_reads (.refl _) (.refl _) rfl
      (.inr ⟨all_isSpace_of_dropWhile hw hx, all_isSpace_of_dropWhile hw' hx⟩)
  · obtain ⟨ls, hsig, hls⟩ := exists_reads_dropWhile hw hx
    obtain ⟨ms, hsig', hms⟩ := exists_reads_dropWhile hw' hx
    exact agree_of_reads hls hms (by rw [hsig, hsig']) (.inl rfl)

/-- An atom that cannot go on ends, with blanks after it or without. -/
theorem AtomSoFar.agree {t : Text} (h : AtomSoFar t) {b b' : Text} (hb : b.all isSpace)
    (hb' : b'.all isSpace) {x : Text} (hx : (b = [] ↔ b' = []) ∨ (atomTail x).1 = [])
    (hne : x ≠ []) : Agree (t ++ (b ++ x)) (t ++ (b' ++ x)) := by
  have hread {b : Text} (hb : b.all isSpace) (hx : b ≠ [] ∨ (atomTail x).1 = []) :
      Reads (t ++ (b ++ x)) [⟨.atom, t⟩] (b ++ x) :=
    .step (h.nextLexeme_of_ends hb hx) (by simp [hne]) (.refl _)
  by_cases hcase : b = [] ∧ b' = []
  · rw [hcase.1, hcase.2]
    exact Agree.refl _
  · have hx₁ : b ≠ [] ∨ (atomTail x).1 = [] := by
      rcases hx with hx | hx
      · exact .inl fun hbn => hcase ⟨hbn, hx.mp hbn⟩
      · exact .inr hx
    have hx₂ : b' ≠ [] ∨ (atomTail x).1 = [] := by
      rcases hx with hx | hx
      · exact .inl fun hbn => hcase ⟨hx.mpr hbn, hbn⟩
      · exact .inr hx
    obtain ⟨ls, ms, hls, hms, hsig, hp⟩ := agree_of_all_isSpace hb hb' x
    exact agree_of_reads ((hread hb hx₁).trans hls) ((hread hb' hx₂).trans hms)
      (by rw [significant_append, significant_append, hsig]) hp

/-- What texts that agree leave pending. -/
theorem Agree.pending_cases {s t : Text} (h : Agree s t)
    (hs : EndsLine s) :
    (pending s).all isSpace ∧ (pending t).all isSpace ∨
      pending s = pending t ∧ (AtomSoFar (pending s) ∨ Unfinished (pending s)) := by
  obtain ⟨-, -, -, -, -, hp | hp⟩ := h
  · rcases SexpEditing.pending_cases hs with hspace | hatom | hun
    · exact .inl ⟨hspace, by rwa [← hp]⟩
    · exact .inr ⟨hp, .inl hatom⟩
    · exact .inr ⟨hp, .inr hun⟩
  · exact .inl hp

/-- **Texts go on agreeing** when a line follows with other blanks, unless the line starts inside
something without an end, or an atom goes on there. -/
theorem Agree.append {s t : Text} (h : Agree s t) (hs : EndsLine s)
    {b b' : Text} (hb : b.all isSpace) (hb' : b'.all isSpace)
    (hu : Unfinished (pending s) → b = b') {x : Text}
    (hx : AtomSoFar (pending s) → ((b = [] ↔ b' = []) ∨ (atomTail x).1 = []) ∧ x ≠ []) :
    Agree (s ++ (b ++ x)) (t ++ (b' ++ x)) := by
  refine h.of_pending ?_
  rcases h.pending_cases hs with ⟨hp, hp'⟩ | ⟨hp, hatom | hun⟩
  · rw [← List.append_assoc, ← List.append_assoc]
    refine agree_of_all_isSpace ?_ ?_ x
    · rw [List.all_append, hp, hb]
      rfl
    · rw [List.all_append, hp', hb']
      rfl
  · rw [← hp]
    exact hatom.agree hb hb' (hx hatom).1 (hx hatom).2
  · rw [← hp, hu hun]
    exact Agree.refl _

/-- At the end of the text an atom ends anyway. -/
theorem AtomSoFar.significant_append {t : Text} (h : AtomSoFar t) {b : Text} (hb : b.all isSpace) :
    Lexeme.significant (lexemes (t ++ b)) = [⟨.atom, t⟩] := by
  by_cases hne : b = []
  · rw [hne, List.append_nil, lexemes_of_some h.1, lexemes_of_none rfl]
    rfl
  · have hnext := h.nextLexeme_append_spaces hb hne []
    rw [List.append_nil] at hnext
    rw [lexemes_of_some hnext]
    exact congrArg (Lexeme.mk .atom t :: ·) (lexemes_of_all_isSpace hb)

/-- The significant lexemes of a text that agrees with another so far. -/
theorem Agree.significant_eq_append {s t : Text} (h : Agree s t) :
    ∃ ls, (∀ x, Lexeme.significant (lexemes (s ++ x)) =
        ls ++ Lexeme.significant (lexemes (pending s ++ x))) ∧
      ∀ x, Lexeme.significant (lexemes (t ++ x)) =
        ls ++ Lexeme.significant (lexemes (pending t ++ x)) := by
  obtain ⟨ls, ms, hls, hms, hsig, -⟩ := h
  refine ⟨Lexeme.significant ls, fun x => ?_, fun x => ?_⟩
  · rw [(hls.append_right x).lexemes_eq, SexpEditing.significant_append]
  · rw [(hms.append_right x).lexemes_eq, SexpEditing.significant_append, hsig]

/-- **The significant lexemes stay** when the last line has other blanks, unless it starts inside
something without an end, or an atom goes on there. -/
theorem Agree.significant_append {s t : Text} (h : Agree s t)
    (hs : EndsLine s) {b b' : Text} (hb : b.all isSpace)
    (hb' : b'.all isSpace) (hu : Unfinished (pending s) → b = b') {x : Text}
    (hx : AtomSoFar (pending s) → (b = [] ↔ b' = []) ∨ (atomTail x).1 = []) :
    Lexeme.significant (lexemes (s ++ (b ++ x))) =
      Lexeme.significant (lexemes (t ++ (b' ++ x))) := by
  by_cases hcase : AtomSoFar (pending s) ∧ x = []
  · obtain ⟨hatom, rfl⟩ := hcase
    rcases h.pending_cases hs with ⟨hp, -⟩ | ⟨hp, -⟩
    · exact absurd hp hatom.not_all_isSpace
    · obtain ⟨ls, hls, hms⟩ := h.significant_eq_append
      rw [hls, hms, ← hp, List.append_nil, List.append_nil, hatom.significant_append hb,
        hatom.significant_append hb']
  · exact (h.append hs hb hb' hu fun hatom =>
      ⟨hx hatom, fun hnil => hcase ⟨hatom, hnil⟩⟩).significant_eq

/-- **The significant lexemes change** when an atom that went on at the start of a line does so no
more. -/
theorem Agree.significant_ne {s t : Text} (h : Agree s t) (hatom : AtomSoFar (pending s))
    {b : Text} (hb : b.all isSpace) (hne : b ≠ []) {x : Text} (hx : (atomTail x).1 ≠ [])
    (y : Text) :
    Lexeme.significant (lexemes (s ++ x)) ≠ Lexeme.significant (lexemes (t ++ (b ++ y))) := by
  have hp : pending s = pending t := by
    obtain ⟨-, -, -, -, -, hp | hp⟩ := h
    · exact hp
    · exact absurd hp.1 hatom.not_all_isSpace
  obtain ⟨ls, hls, hms⟩ := h.significant_eq_append
  rw [hls, hms, ← hp, lexemes_of_some (hatom.nextLexeme_append x),
    lexemes_of_some (hatom.nextLexeme_append_spaces hb hne y)]
  intro heq
  -- the atom is a longer one where it goes on
  obtain ⟨hhead, -⟩ := List.cons.inj (List.append_cancel_left heq)
  have htext := congrArg Lexeme.text hhead
  exact hx (List.append_right_eq_self.mp htext)

end SexpEditing
