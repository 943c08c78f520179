import SexpEditing.Proofs.Token.Blanks
import SexpEditing.Proofs.Token.Form

/-!
# A comma that merges

Among lexemes that stand one behind the other, a comma takes an at-sign behind it. If nothing else
is wrong with some lexemes, their text is split into others as soon as this happens once: the lexeme
at the first such place has become another one.

## Main definitions

* `Lexeme.Merges`: a comma takes the first unit of the lexeme behind it

## Main results

* `significant_lexemes_iff`: when the lexemes that carry structure are read back
-/

namespace SexpEditing

open CodeUnit

/-- A comma before a lexeme that begins with an at-sign. -/
def Lexeme.Merges (l m : Lexeme) : Prop := l = ⟨.mark, [comma]⟩ ∧ m.text.head? = some atSign

/-- Nothing else can go wrong behind a mark. -/
theorem Lexeme.adjoins_or_merges {l : Lexeme} (hl : l.kind = .mark) (m : Lexeme) :
    l.Adjoins m ∨ l.Merges m := by
  obtain ⟨k, x⟩ := l
  obtain rfl : k = .mark := hl
  by_cases h : x = [comma] ∧ m.text.head? = some atSign
  · obtain ⟨rfl, hm⟩ := h
    exact .inr ⟨rfl, hm⟩
  · exact .inl fun hx hm => h ⟨hx, hm⟩

/-- Only an atom begins with an at-sign. -/
theorem Lexeme.Formed.kind_eq_atom {l : Lexeme} (h : l.Formed) (hl : l.text.head? = some atSign) :
    l.kind = .atom := by
  have hspace := h.isSpace_iff hl
  cases h with
  | space => exact absurd (hspace.mpr rfl) (by decide)
  | mark hc =>
    obtain rfl := Option.some.inj hl
    cases hc
  | atom => rfl
  | lineComment | blockComment | opener | closer | splicingMark | string => cases hl

variable {l : Lexeme} {ls : List Lexeme}

/-- What a comma and an at-sign are read as. -/
theorem nextLexeme_of_merges {m : Lexeme} (h : l.Merges m) (x : Text) :
    ∃ after, nextLexeme (l.text ++ (m.text ++ x)) = some (⟨.mark, [comma, atSign]⟩, after) := by
  obtain ⟨rfl, hm⟩ := h
  obtain ⟨rest, hrest⟩ := List.head?_eq_some_iff.mp hm
  exact ⟨rest ++ x, by rw [hrest]; rfl⟩

/-- A lexeme that may stand before the next one is read, whatever is merged behind that one. -/
theorem nextLexeme_of_adjoins (hform : ∀ m ∈ l :: ls, m.Formed)
    (hchain : (l :: ls).IsChain fun m n => m.Adjoins n ∨ m.Merges n)
    (hl : ∀ m ∈ ls.head?, l.Adjoins m) :
    nextLexeme (l.text ++ ls.flatMap fun m => m.text) = some (l, ls.flatMap fun m => m.text) := by
  induction ls generalizing l with
  | nil => exact (hform l (by simp)).nextLexeme_append l.endsBefore_nil
  | cons m ls ih =>
    have hadjoins : l.Adjoins m := hl m rfl
    have hforms : ∀ n ∈ m :: ls, n.Formed := fun n hn => hform n (List.mem_cons_of_mem l hn)
    have htail : (m :: ls).IsChain _ := hchain.tail
    refine (hform l (by simp)).nextLexeme_append ?_
    rw [List.flatMap_cons]
    -- the lexeme behind is read as it stands, or it is a comma and merges itself
    by_cases hm : ∀ n ∈ ls.head?, m.Adjoins n
    · obtain ⟨-, hends, -⟩ := Lexeme.nextLexeme_eq_some_iff.mp (ih hforms htail hm)
      exact (Lexeme.endsBefore_iff_adjoins (hform m (by simp)) hends).mpr hadjoins
    · obtain ⟨n, hn, hnot⟩ := not_forall₂.mp hm
      obtain ⟨rest, rfl⟩ := List.head?_eq_some_iff.mp hn
      obtain ⟨hmn, -⟩ := List.isChain_cons_cons.mp htail
      have hmerges : m.Merges n := hmn.resolve_left hnot
      obtain ⟨after, hnext⟩ := nextLexeme_of_merges hmerges (rest.flatMap fun p => p.text)
      obtain ⟨hform', hends, happend⟩ := Lexeme.nextLexeme_eq_some_iff.mp hnext
      rw [List.flatMap_cons, ← happend, Lexeme.endsBefore_iff_adjoins hform' hends]
      -- both begin with a comma
      obtain ⟨rfl, -⟩ := hmerges
      exact hadjoins

/-- **When the lexemes that carry structure are read back** from the text of some lexemes, of which
a comma may merge with the one behind it. -/
theorem significant_lexemes_iff (hform : ∀ m ∈ ls, m.Formed)
    (hchain : ls.IsChain fun m n => m.Adjoins n ∨ m.Merges n) :
    Lexeme.significant (lexemes (ls.flatMap fun m => m.text)) = Lexeme.significant ls ↔
      ls.IsChain Lexeme.Adjoins := by
  constructor
  · intro h
    induction ls with
    | nil => exact .nil
    | cons l ls ih =>
      have hforms : ∀ m ∈ ls, m.Formed := fun m hm => hform m (List.mem_cons_of_mem l hm)
      by_cases hl : ∀ m ∈ ls.head?, l.Adjoins m
      · refine (ih hforms hchain.tail ?_).cons hl
        rw [List.flatMap_cons, lexemes_of_some (nextLexeme_of_adjoins hform hchain hl)] at h
        have hcons (ms : List Lexeme) :
            Lexeme.significant (l :: ms) = Lexeme.significant [l] ++ Lexeme.significant ms :=
          significant_append [l] ms
        rw [hcons (lexemes _), hcons ls] at h
        exact List.append_cancel_left h
      · obtain ⟨m, hm, hnot⟩ := not_forall₂.mp hl
        obtain ⟨rest, rfl⟩ := List.head?_eq_some_iff.mp hm
        have hmerges := (List.isChain_cons_cons.mp hchain).1.resolve_left hnot
        obtain ⟨after, hnext⟩ := nextLexeme_of_merges hmerges (rest.flatMap fun p => p.text)
        -- the first lexeme that is read is another one
        obtain ⟨rfl, -⟩ := hmerges
        rw [List.flatMap_cons, List.flatMap_cons, lexemes_of_some hnext] at h
        cases h
  · intro h
    rw [lexemes_flatMap_text h hform]

end SexpEditing
