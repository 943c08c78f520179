import Mathlib.Data.List.DropRight
import SexpEditing.Proofs.Token.Blanks
import SexpEditing.Proofs.Token.Coverage

/-!
# Breaking a text between tokens

A text is cut at an offset, the blanks before the cut are dropped, and a line feed is put in. If no
token but white space goes over the cut, the lexemes up to the cut are read as before, because each
of them ends before white space too, and the lexemes behind the cut are read as before anyway. The
blanks that are dropped can be the last ones of a comment that runs to the end of its line, and then
the comment is shorter; or one of them can be escaped and belong to an atom. In that case the line
feed takes its place in the atom.

## Main definitions

* `Text.trimmed`, `Text.trail`: a text without the blanks at its end, and these blanks
* `Cut`: a text is cut behind some lexemes and white space

## Main results

* `reads_of_isChain`: lexemes are read as they stand before any text that does not go on with them
* `exists_cut_of_tokens`: a text is cut where no token but white space goes over the cut
* `Cut.exists_reads`: what is read before a break
* `Cut.reads_of_escapesNext`: what is read before a break that an atom takes in
* `Cut.exists_atom_iff`: which atom that is
-/

namespace SexpEditing

open CodeUnit Token

/-! ### Blanks at the end -/

namespace Text

/-- A text without the blanks at its end. -/
def trimmed (t : Text) : Text := t.rdropWhile isIndentation

/-- The blanks at the end of a text. -/
def trail (t : Text) : Text := t.rtakeWhile isIndentation

@[simp] theorem trimmed_append_trail (t : Text) : t.trimmed ++ t.trail = t :=
  List.rdropWhile_append_rtakeWhile

theorem length_trail (t : Text) : t.trail.length = (t.reverse.takeWhile isIndentation).length := by
  unfold trail List.rtakeWhile
  rw [List.length_reverse]

theorem all_isIndentation_trail (t : Text) : t.trail.all isIndentation := by
  rw [List.all_eq_true]
  intro c hc
  exact List.mem_rtakeWhile_imp hc

theorem trimmed_append (a b : Text) :
    (a ++ b).trimmed = if b.all isIndentation then a.trimmed else a ++ b.trimmed := by
  unfold trimmed List.rdropWhile
  rw [List.reverse_append, List.dropWhile_append]
  have hall : (b.reverse.dropWhile isIndentation).isEmpty = true ↔ b.all isIndentation = true := by
    rw [List.isEmpty_iff, List.dropWhile_eq_nil_iff, List.all_eq_true]
    simp only [List.mem_reverse]
  by_cases hb : b.all isIndentation = true
  · rw [if_pos hb, if_pos (hall.mpr hb)]
  · rw [if_neg hb, if_neg fun h => hb (hall.mp h), List.reverse_append, List.reverse_reverse]

theorem trimmed_eq_nil {t : Text} (h : t.all isIndentation) : t.trimmed = [] := by
  have happend := trimmed_append [] t
  rw [if_pos h] at happend
  exact happend

theorem trimmed_of_getLast? {t : Text} {c : CodeUnit} (h : t.getLast? = some c)
    (hc : c.isIndentation = false) : t.trimmed = t := by
  obtain ⟨init, rfl⟩ := List.getLast?_eq_some_iff.mp h
  exact List.rdropWhile_concat_neg _ _ _ (by rw [hc]; exact Bool.false_ne_true)

theorem trimmed_cons {c : CodeUnit} (hc : c.isIndentation = false) (t : Text) :
    trimmed (c :: t) = c :: t.trimmed := by
  have hone : trimmed [c] = [c] := trimmed_of_getLast? rfl hc
  have happend := trimmed_append [c] t
  rw [List.singleton_append] at happend
  rw [happend]
  split
  · next hall => rw [hone, trimmed_eq_nil hall]
  · rfl

end Text

/-- What ends with a line feed is not trimmed any more. -/
theorem EndsLine.trimmed_append {a : Text} (ha : EndsLine a) (b : Text) :
    (a ++ b).trimmed = a ++ b.trimmed := by
  rw [Text.trimmed_append]
  split
  · next hall =>
    rw [Text.trimmed_eq_nil hall, List.append_nil]
    rcases ha with rfl | ha
    · rfl
    · exact Text.trimmed_of_getLast? ha rfl
  · rfl

/-! ### Lexemes before another text -/

theorem Lexeme.Adjoins.of_head? {l m m' : Lexeme} (h : l.Adjoins m) (hkind : m'.kind = m.kind)
    (hhead : m'.text.head? = m.text.head?) : l.Adjoins m' := by
  unfold Lexeme.Adjoins at h ⊢
  rw [hkind, hhead]
  exact h

/-- **Lexemes are read as they stand** before any text that does not go on with the last one. -/
theorem reads_of_isChain {ls : List Lexeme} {x : Text} (hx : x ≠ [])
    (hchain : ls.IsChain Lexeme.Adjoins) (hform : ∀ l ∈ ls, l.Formed)
    (hlast : ∀ l ∈ ls.getLast?, l.EndsBefore x) :
    Reads ((ls.flatMap fun l => l.text) ++ x) ls x := by
  -- from the back: the text behind a lexeme is read already, and tells whether it ends there
  induction ls with
  | nil => exact .refl x
  | cons l ls ih =>
    have hforms : ∀ m ∈ ls, m.Formed := fun m hm => hform m (List.mem_cons_of_mem l hm)
    have hreads : Reads ((ls.flatMap fun m => m.text) ++ x) ls x := by
      apply ih hchain.tail hforms
      intro m hm
      apply hlast m
      rw [Option.mem_def] at hm ⊢
      rw [List.getLast?_cons, hm]
      rfl
    rw [List.flatMap_cons, List.append_assoc]
    refine .step ((hform l List.mem_cons_self).nextLexeme_append ?_) (by simp [hx]) hreads
    cases hreads with
    | refl => exact hlast l rfl
    | step hn =>
      -- the next lexeme is read there, and the two may stand side by side
      obtain ⟨hm, hends, happend⟩ := Lexeme.nextLexeme_eq_some_iff.mp hn
      rw [← happend]
      exact (Lexeme.endsBefore_iff_adjoins hm hends).mpr (List.isChain_cons_cons.mp hchain).1

/-- A lexeme that ends before white space ends before any text that begins alike. -/
theorem Lexeme.EndsBefore.of_isSpace {l : Lexeme} {c : CodeUnit} {x : Text}
    (h : l.EndsBefore (c :: x)) (hc : c.isSpace) (hl : l.kind ≠ .space) (y : Text) :
    l.EndsBefore (c :: y) := by
  unfold Lexeme.EndsBefore at h ⊢
  cases hk : l.kind with
  | space => exact absurd hk hl
  | comment =>
    rw [hk] at h
    intro hhead
    have htake := h hhead
    rw [List.takeWhile_cons] at htake ⊢
    split at htake
    · cases htake
    · next hnot => rw [if_neg hnot]
  | mark =>
    intro _ hat
    obtain rfl := Option.some.inj hat
    cases hc
  | atom =>
    rw [hk] at h
    right
    exact ⟨(h.resolve_left (List.cons_ne_nil c x)).1, congrArg Prod.fst (atomTail_of_isSpace hc y)⟩
  | opener | closer | string => trivial

/-! ### Cutting a text -/

/-- A text is cut behind some lexemes, the last of which is no white space, and behind some white
space, before a text `x`. -/
structure Cut (t : Text) (ls : List Lexeme) (w x : Text) : Prop where
  lexemes_eq : lexemes t = ls ++ lexemes (w ++ x)
  text_eq : (ls.flatMap fun l => l.text) ++ (w ++ x) = t
  all_isSpace : w.all isSpace
  ends : ∀ l ∈ ls.getLast?, l.kind ≠ .space ∧ l.EndsBefore (w ++ x)

namespace Cut

theorem zero (t : Text) : Cut t [] [] t where
  lexemes_eq := rfl
  text_eq := rfl
  all_isSpace := rfl
  ends l hl := by cases hl

section Step

variable {t after : Text} {l : Lexeme} (hnext : nextLexeme t = some (l, after))
include hnext

/-- A cut in white space, or at its end. -/
theorem of_space (hl : l.kind = .space) {n : Nat} (hn : n ≤ l.text.length) :
    Cut t [] (t.take n) (t.drop n) := by
  obtain ⟨hform, -, happend⟩ := Lexeme.nextLexeme_eq_some_iff.mp hnext
  constructor
  · rw [List.take_append_drop, List.nil_append]
  · rw [List.take_append_drop]
    rfl
  · rw [← happend, List.take_append_of_le_length hn]
    cases hform with
    | space hne hw =>
      rw [List.all_eq_true] at hw ⊢
      intro c hc
      exact hw c (List.mem_of_mem_take hc)
    | _ => cases hl
  · intro m hm
    cases hm

/-- A cut further on. -/
theorem cons {ls : List Lexeme} {w x : Text} (h : Cut after ls w x)
    (hl : l.kind = .space → ls ≠ [] ∨ w ≠ []) : Cut t (l :: ls) w x := by
  obtain ⟨-, hends, happend⟩ := Lexeme.nextLexeme_eq_some_iff.mp hnext
  refine ⟨?_, ?_, h.all_isSpace, ?_⟩
  · rw [lexemes_of_some hnext, h.lexemes_eq, List.cons_append]
  · rw [List.flatMap_cons, List.append_assoc, h.text_eq, happend]
  · intro m hm
    cases ls with
    | cons m' ls =>
      apply h.ends m
      rwa [List.getLast?_cons_cons] at hm
    | nil =>
      obtain rfl : l = m := Option.some.inj hm
      have htext : w ++ x = after := h.text_eq
      rw [htext]
      refine ⟨fun hk => ?_, hends⟩
      -- white space does not end before more of it
      obtain ⟨c, w, rfl⟩ := List.exists_cons_of_ne_nil ((hl hk).resolve_left fun hne => hne rfl)
      have hw := h.all_isSpace
      rw [List.all_cons, Bool.and_eq_true] at hw
      unfold Lexeme.EndsBefore at hends
      rw [hk, ← htext, List.cons_append] at hends
      rw [List.takeWhile_cons_of_pos hw.1] at hends
      cases hends

end Step

end Cut

/-- **A text is cut** wherever no lexeme but white space goes over the cut. -/
theorem exists_cut {t : Text} {n : Nat} (hn : n ≤ ((lexemes t).flatMap fun l => l.text).length)
    (hcut : ∀ ls m ms, lexemes t = ls ++ m :: ms → (ls.flatMap fun l => l.text).length < n →
      n < (ls.flatMap fun l => l.text).length + m.text.length → m.kind = .space) :
    ∃ ls w x, Cut t ls w x ∧ (ls.flatMap fun l => l.text).length + w.length = n := by
  -- lexeme by lexeme, until the cut falls into one of white space or behind one
  fun_induction lexemes t generalizing n with
  | case1 t =>
    obtain rfl : n = 0 := Nat.le_zero.mp hn
    exact ⟨[], [], t, .zero t, rfl⟩
  | case2 t l after hnext ih =>
    have hlen := congrArg List.length (nextLexeme_append hnext)
    rw [List.length_append] at hlen
    by_cases hzero : n = 0
    · exact ⟨[], [], t, .zero t, hzero.symm⟩
    by_cases hspace : l.kind = .space ∧ n ≤ l.text.length
    · refine ⟨[], _, _, .of_space hnext hspace.1 hspace.2, ?_⟩
      rw [List.length_take_of_le (by omega)]
      exact Nat.zero_add n
    · -- the cut is behind the lexeme, since that does not go over it
      have hle : l.text.length ≤ n := by
        by_contra hlt
        have hk := hcut [] l (lexemes after) rfl (Nat.pos_of_ne_zero hzero)
        rw [List.flatMap_nil, List.length_nil, Nat.zero_add] at hk
        exact hspace ⟨hk (by omega), by omega⟩
      rw [List.flatMap_cons, List.length_append] at hn
      have hcut' (ls : List Lexeme) (m : Lexeme) (ms : List Lexeme)
          (hms : lexemes after = ls ++ m :: ms)
          (hlo : (ls.flatMap fun l => l.text).length < n - l.text.length)
          (hhi : n - l.text.length < (ls.flatMap fun l => l.text).length + m.text.length) :
          m.kind = .space := by
        apply hcut (l :: ls) m ms
        · rw [hms, List.cons_append]
        · rw [List.flatMap_cons, List.length_append]
          omega
        · rw [List.flatMap_cons, List.length_append]
          omega
      obtain ⟨ls, w, x, hafter, hlength⟩ := ih (by omega) hcut'
      refine ⟨l :: ls, w, x, .cons hnext hafter fun hk => ?_, ?_⟩
      · by_contra hnot
        rw [not_or, not_ne_iff, not_ne_iff] at hnot
        obtain ⟨rfl, rfl⟩ := hnot
        rw [List.flatMap_nil, List.length_nil] at hlength
        exact hspace ⟨hk, by omega⟩
      · rw [List.flatMap_cons, List.length_append]
        omega

/-- Only white space goes over a cut that lies in no atom, no string, no mark and no comment: the
delimiters are single units. -/
theorem exists_cut_of_tokens {t : Text} {n : Nat} (hn : n ≤ tokensEnd t)
    (hcut : ∀ u ∈ tokenize t, u.start < n → n < u.stop →
      u.kind ≠ .atom ∧ u.kind ≠ .string ∧ u.kind ≠ .mark ∧ u.kind ≠ .comment) :
    ∃ ls w x, Cut t ls w x ∧ (ls.flatMap fun l => l.text).length + w.length = n := by
  rw [tokensEnd_eq] at hn
  apply exists_cut (Int.ofNat_le.mp hn)
  intro ls m ms hls hlo hhi
  have hform : m.Formed := by
    apply formed_of_mem_lexemes (t := t)
    rw [hls]
    exact List.mem_append_right _ List.mem_cons_self
  have hmem : (⟨m, ⟨(ls.flatMap fun l => l.text).length,
      (ls.flatMap fun l => l.text).length + m.text.length⟩⟩ : Token) ∈ tokenize t := by
    rw [tokenize_of_lexemes hls]
    exact List.mem_append_right _ List.mem_cons_self
  obtain ⟨hatom, hstring, hmark, hcomment⟩ := hcut _ hmem (Int.ofNat_lt.mpr hlo)
    (by show (n : Int) < _ + _; omega)
  cases hform with
  | space => rfl
  | lineComment | blockComment => exact absurd rfl hcomment
  | mark | splicingMark => exact absurd rfl hmark
  | atom => exact absurd rfl hatom
  | string => exact absurd rfl hstring
  | opener | closer =>
    rw [List.length_singleton] at hhi
    omega

/-! ### Lexemes whose last blanks are dropped -/

/-- A lexeme without the blanks at its end. -/
def Lexeme.trimmed (l : Lexeme) : Lexeme := ⟨l.kind, l.text.trimmed⟩

/-- An atom whose last backslash takes along what follows takes it along whatever it is. -/
theorem atomTail_append_of_escapesNext {t : Text} (ht : (atomTail t).2 = [])
    (he : escapesNext t = true) (c : CodeUnit) (x : Text) :
    atomTail (t ++ c :: x) = prepend (t ++ [c]) (atomTail x) := by
  -- by the cases of the scan: a pair that it takes along does not change what is escaped at the end
  fun_induction atomTail t with
  | case1 => cases he
  | case2 d rest ih =>
    have hescape := atomTail_escape d (rest ++ c :: x)
    rw [ih ht ((escapesNext_escape d rest).symm.trans he), prepend_prepend] at hescape
    exact hescape
  | case3 rest => cases ht
  | case4 d rest hb hs hd ih =>
    cases rest with
    | nil =>
      -- the one unit is the backslash
      by_cases hback : d = backslash
      · subst hback
        exact atomTail_escape c x
      · rw [escapesNext_cons hback] at he
        cases he
    | cons e rest =>
      have hback : d ≠ backslash := fun hback => hb e rest hback rfl
      rw [escapesNext_cons hback] at he
      have ih := ih ht he
      rw [List.cons_append] at ih
      rw [List.cons_append, List.cons_append, atomTail_cons (fun _ _ h => absurd h hback),
        if_pos hd, ih, prepend_prepend]
      · rfl
      · rintro r rfl hr
        obtain ⟨rfl, -⟩ := List.cons.inj hr
        exact hs rest rfl rfl
  | case5 => cases ht

theorem atomTail_of_append {a b : Text} (h : (atomTail (a ++ b)).2 = []) : (atomTail a).2 = [] := by
  by_contra hne
  rw [atomTail_append_right hne b] at h
  exact hne (List.append_eq_nil_iff.mp h).1

namespace Lexeme.Formed

variable {l : Lexeme}

/-- No lexeme but white space begins with a blank. -/
theorem head?_trimmed (h : l.Formed) (hl : l.kind ≠ .space) :
    l.text.trimmed.head? = l.text.head? := by
  obtain ⟨c, rest, hcons⟩ := List.exists_cons_of_ne_nil h.text_ne_nil
  have hc : c.isIndentation = false := by
    by_contra hc
    rw [Bool.not_eq_false] at hc
    exact hl ((h.isSpace_iff (by rw [hcons, List.head?_cons])).mp (isSpace_of_isIndentation hc))
  rw [hcons, Text.trimmed_cons hc, List.head?_cons, List.head?_cons]

/-- Only white space is made of blanks alone, so before any other lexeme nothing is dropped. -/
theorem trimmed_flatMap (h : l.Formed) (hl : l.kind ≠ .space) (init : List Lexeme) :
    Text.trimmed ((init ++ [l]).flatMap fun l => l.text) =
      (init.flatMap fun l => l.text) ++ l.text.trimmed := by
  have hne : ¬ l.text.all isIndentation = true := by
    intro hall
    have hhead := h.head?_trimmed hl
    rw [Text.trimmed_eq_nil hall] at hhead
    exact h.text_ne_nil (List.head?_eq_none_iff.mp hhead.symm)
  rw [List.flatMap_append, List.flatMap_singleton, Text.trimmed_append, if_neg hne]

/-- The blanks at the end of an atom are escaped. -/
theorem trimmed_atom (h : l.Formed) (hl : l.kind = .atom)
    (he : escapesNext l.text.trimmed = false) : l.text.trimmed = l.text := by
  cases h with
  | @atom c rest hc hs ht =>
    by_contra hne
    have hsplit := Text.trimmed_append_trail (c :: rest)
    generalize Text.trimmed (c :: rest) = a at he hne hsplit
    have hb := Text.all_isIndentation_trail (c :: rest)
    generalize Text.trail (c :: rest) = b at hsplit hb
    -- without an escape the atom would end before its blanks
    cases b with
    | nil =>
      rw [List.append_nil] at hsplit
      exact hne hsplit
    | cons d b =>
      rw [List.all_cons, Bool.and_eq_true] at hb
      have hd := congrArg Prod.fst (atomTail_of_isSpace (isSpace_of_isIndentation hb.1) b)
      rw [← hsplit] at ht
      rw [atomTail_append_of_not_escapesNext (atomTail_of_append ht) he hd] at ht
      cases ht
  | _ => cases hl

/-- **A lexeme without the blanks at its end** is itself, or a comment that is shorter; and it ends
before a line feed. The only lexemes for which this fails are atoms that escape what follows. -/
theorem trimmed (h : l.Formed) (hl : l.kind ≠ .space)
    (hsteady : l.kind = .atom → escapesNext l.text.trimmed = false) :
    (l.trimmed = l ∨ l.kind = .comment) ∧ l.trimmed.Formed ∧
      ∀ y, l.trimmed.EndsBefore (lineFeed :: y) := by
  have hatom := h.trimmed_atom
  -- those that end with another unit than a blank lose nothing
  have hsame (htext : l.text.trimmed = l.text)
      (hends : ∀ y, l.EndsBefore (lineFeed :: y)) : (l.trimmed = l ∨ l.kind = .comment) ∧
        l.trimmed.Formed ∧ ∀ y, l.trimmed.EndsBefore (lineFeed :: y) := by
    have heq : l.trimmed = l := by
      unfold Lexeme.trimmed
      rw [htext]
    rw [heq]
    exact ⟨.inl rfl, h, hends⟩
  cases h with
  | space => exact absurd rfl hl
  | @lineComment body hb =>
    have htext : Lexeme.trimmed ⟨.comment, semicolon :: body⟩ =
        ⟨.comment, semicolon :: body.trimmed⟩ := by
      unfold Lexeme.trimmed
      rw [Text.trimmed_cons rfl]
    rw [htext]
    refine ⟨.inr rfl, .lineComment ?_, fun y _ => rfl⟩
    rw [← Text.trimmed_append_trail body, List.all_append, Bool.and_eq_true] at hb
    exact hb.1
  | @blockComment body hb =>
    refine hsame (Text.trimmed_of_getLast? (c := slash) ?_ rfl) fun y hhead => by cases hhead
    rw [List.getLast?_cons, List.getLast?_cons, blockCommentTail_ends hb]
    rfl
  | opener | closer => exact hsame rfl fun y => trivial
  | @mark c hc =>
    refine hsame (Text.trimmed_of_getLast? (c := c) rfl ?_) fun y _ hat => by cases hat
    simp only [isMarkUnit, Bool.or_eq_true, beq_iff_eq] at hc
    rcases hc with (rfl | rfl) | rfl <;> rfl
  | splicingMark => exact hsame rfl fun y _ hat => by cases hat
  | @atom c rest =>
    have htext := hatom rfl (hsteady rfl)
    refine hsame htext fun y => .inr ⟨?_, congrArg Prod.fst (atomTail_of_isSpace rfl y)⟩
    rw [← htext]
    exact hsteady rfl
  | @string body hb =>
    refine hsame (Text.trimmed_of_getLast? (c := quotationMark) ?_ rfl) fun y => trivial
    rw [List.getLast?_cons, stringTail_ends hb]
    rfl

/-- **An atom that escapes what follows** takes in a line feed. -/
theorem atomSoFar (h : l.Formed) (hl : l.kind = .atom) (he : escapesNext l.text.trimmed = true) :
    AtomSoFar (l.text.trimmed ++ [lineFeed]) := by
  have hhead := h.head?_trimmed (by rw [hl]; exact TokenKind.noConfusion)
  cases h with
  | @atom c rest hc hs ht =>
    have hsplit := Text.trimmed_append_trail (c :: rest)
    generalize Text.trimmed (c :: rest) = a at he hhead hsplit ⊢
    obtain ⟨a, rfl⟩ := List.head?_eq_some_iff.mp hhead
    rw [← hsplit] at ht
    have htail := atomTail_append_of_escapesNext (atomTail_of_append ht) he lineFeed []
    rw [atomTail_nil] at htail
    refine ⟨?_, by rw [List.getLast?_concat]⟩
    rw [List.cons_append] at htail ⊢
    rw [nextLexeme_of_beginsAtom hc, htail, prepend_fst, prepend_snd, List.append_nil]
    · -- no block comment begins there, since none did in the atom
      rintro r rfl hr
      cases a with
      | nil => cases hr
      | cons d a =>
        obtain ⟨rfl, -⟩ := List.cons.inj hr
        obtain ⟨-, hrest⟩ := List.cons.inj hsplit
        exact hs _ rfl hrest.symm
  | _ => cases hl

end Lexeme.Formed

/-! ### What is read before a break -/

namespace Cut

variable {t w x : Text} {ls : List Lexeme}

theorem isChain (h : Cut t ls w x) : ls.IsChain Lexeme.Adjoins := by
  have hchain := isChain_lexemes t
  rw [h.lexemes_eq] at hchain
  exact hchain.left_of_append

theorem formed (h : Cut t ls w x) {l : Lexeme} (hl : l ∈ ls) : l.Formed := by
  apply formed_of_mem_lexemes (t := t)
  rw [h.lexemes_eq]
  exact List.mem_append_left _ hl

/-- The lexemes before the last one are read as they stand before any lexeme of its kind that begins
as it does. -/
theorem reads_init {l m : Lexeme} (h : Cut t (ls ++ [l]) w x) {y after : Text}
    (hnext : nextLexeme y = some (m, after)) (hkind : m.kind = l.kind)
    (hhead : m.text.head? = l.text.head?) : Reads ((ls.flatMap fun l => l.text) ++ y) ls y := by
  obtain ⟨hform, hends, happend⟩ := Lexeme.nextLexeme_eq_some_iff.mp hnext
  have hchain := h.isChain
  rw [List.isChain_append] at hchain
  apply reads_of_isChain
  · rw [← happend]
    exact List.append_ne_nil_of_left_ne_nil hform.text_ne_nil after
  · exact hchain.1
  · intro k hk
    exact h.formed (List.mem_append_left _ hk)
  · intro k hk
    rw [← happend, Lexeme.endsBefore_iff_adjoins hform hends]
    exact (hchain.2.2 k hk l rfl).of_head? hkind hhead

/-- Blanks before the cut are dropped, and with them those at the end of the last lexeme. -/
theorem exists_reads_of_blank (h : Cut t ls w x) (hw : w.all isIndentation)
    (hsteady : ∀ l ∈ ls.getLast?, l.kind = .atom → escapesNext l.text.trimmed = false) :
    ∃ ms, Lexeme.significant ms = Lexeme.significant ls ∧
      ∀ y, Reads (Text.trimmed ((ls.flatMap fun l => l.text) ++ w) ++ lineFeed :: y) ms
        (lineFeed :: y) := by
  rw [Text.trimmed_append, if_pos hw]
  rcases List.eq_nil_or_concat ls with rfl | ⟨init, l, rfl⟩
  · exact ⟨[], rfl, fun y => .refl _⟩
  · rw [List.concat_eq_append] at h hsteady ⊢
    have hlast : l ∈ (init ++ [l]).getLast? := List.getLast?_concat
    have hform : l.Formed := h.formed (List.mem_append_right _ (List.mem_singleton_self l))
    have hkind := (h.ends l hlast).1
    obtain ⟨hsame, htrimmed, hends⟩ := hform.trimmed hkind (hsteady l hlast)
    refine ⟨init ++ [l.trimmed], ?_, fun y => ?_⟩
    · rw [significant_append, significant_append]
      rcases hsame with heq | hcomment
      · rw [heq]
      · -- a comment is no significant token, whether it is shorter or not
        unfold Lexeme.significant Lexeme.trimmed
        simp [hcomment, TokenKind.isTrivia]
    · have hnext := htrimmed.nextLexeme_append (hends y)
      rw [hform.trimmed_flatMap hkind, List.append_assoc]
      have hinit := h.reads_init hnext rfl (hform.head?_trimmed hkind)
      exact hinit.trans (.step hnext (List.cons_ne_nil _ _) (.refl _))

/-- If some of the white space before the cut is left, only this is trimmed. -/
theorem reads_of_not_blank (h : Cut t ls w x) (hw : ¬ w.all isIndentation = true) (y : Text) :
    Reads (((ls.flatMap fun l => l.text) ++ w.trimmed) ++ lineFeed :: y) ls
      (w.trimmed ++ lineFeed :: y) := by
  have hsplit := Text.trimmed_append_trail w
  have hne : w.trimmed ≠ [] := by
    intro hnil
    rw [hnil, List.nil_append] at hsplit
    rw [← hsplit] at hw
    exact hw (Text.all_isIndentation_trail w)
  obtain ⟨c, v, hcons⟩ := List.exists_cons_of_ne_nil hne
  have hspace := h.all_isSpace
  rw [← hsplit, hcons, List.cons_append, List.all_cons, Bool.and_eq_true] at hspace
  rw [List.append_assoc]
  apply reads_of_isChain
  · rw [hcons]
    exact List.cons_ne_nil _ _
  · exact h.isChain
  · intro l hl
    exact h.formed hl
  · intro l hl
    obtain ⟨hkind, hends⟩ := h.ends l hl
    rw [← hsplit, List.append_assoc, hcons] at hends
    rw [hcons]
    exact hends.of_isSpace hspace.1 hkind _

/-- **What is read before a break**: the lexemes before the cut, and white space. The last of the
lexemes can be a comment that is shorter now. -/
theorem exists_reads (h : Cut t ls w x) (hsteady : w.all isIndentation = true →
      ∀ l ∈ ls.getLast?, l.kind = .atom → escapesNext l.text.trimmed = false) :
    ∃ ms v, Lexeme.significant ms = Lexeme.significant ls ∧ v.all isSpace ∧
      ∀ y, Reads (Text.trimmed ((ls.flatMap fun l => l.text) ++ w) ++ lineFeed :: y) ms
        (v ++ lineFeed :: y) := by
  by_cases hw : w.all isIndentation = true
  · obtain ⟨ms, hsig, hreads⟩ := h.exists_reads_of_blank hw (hsteady hw)
    exact ⟨ms, [], hsig, rfl, hreads⟩
  · have hspace := h.all_isSpace
    rw [← Text.trimmed_append_trail w, List.all_append, Bool.and_eq_true] at hspace
    rw [Text.trimmed_append, if_neg hw]
    exact ⟨ls, w.trimmed, rfl, hspace.1, h.reads_of_not_blank hw⟩

/-- **What is read before a break that an atom takes in**: the lexemes before the atom. -/
theorem reads_of_escapesNext {l : Lexeme} (h : Cut t (ls ++ [l]) w x) (hw : w.all isIndentation)
    (hl : l.kind = .atom) (he : escapesNext l.text.trimmed = true) :
    Text.trimmed (((ls ++ [l]).flatMap fun l => l.text) ++ w) =
        (ls.flatMap fun l => l.text) ++ l.text.trimmed ∧
      ∀ y, Reads ((ls.flatMap fun l => l.text) ++ (l.text.trimmed ++ lineFeed :: y)) ls
        (l.text.trimmed ++ lineFeed :: y) := by
  have hform : l.Formed := h.formed (List.mem_append_right _ (List.mem_singleton_self l))
  have hkind : l.kind ≠ .space := by
    rw [hl]
    exact TokenKind.noConfusion
  constructor
  · rw [Text.trimmed_append, if_pos hw, hform.trimmed_flatMap hkind]
  · intro y
    -- what follows is another atom that begins alike
    have hnext := (hform.atomSoFar hl he).nextLexeme_append y
    rw [List.append_assoc, List.singleton_append] at hnext
    refine h.reads_init hnext hl.symm ?_
    have hhead := hform.head?_trimmed hkind
    obtain ⟨c, rest, hcons⟩ := List.exists_cons_of_ne_nil hform.text_ne_nil
    rw [hcons, List.head?_cons] at hhead
    obtain ⟨a, ha⟩ := List.head?_eq_some_iff.mp hhead
    rw [hcons, ha]
    rfl

/-! ### The atom before a cut -/

/-- A token that starts behind the white space before a cut does not end there. -/
theorem kind_eq_of_mem_layOut (hw : w.all isSpace) {start : Int} {u : Token}
    (hu : u ∈ Lexeme.layOut start (lexemes (w ++ x))) (hstop : u.stop ≤ start + w.length)
    (hlt : u.start < u.stop) : u.kind = .space := by
  have hle := le_start_of_mem_layOut hu
  cases w with
  | nil =>
    rw [List.length_nil] at hstop
    omega
  | cons c w =>
    -- the white space is one token, and all others come behind it
    rw [lexemes_of_some (nextLexeme_spaces hw (List.cons_ne_nil c w) x), Lexeme.layOut_cons] at hu
    rcases List.mem_cons.mp hu with rfl | hu
    · rfl
    · have hbehind := le_start_of_mem_layOut hu
      rw [List.length_append] at hbehind
      omega

/-- The text between a lexeme and the cut. -/
theorem slice_eq (h : Cut t ls w x) {n : Nat}
    (hn : (ls.flatMap fun l => l.text).length + w.length = n) {ls₁ ls₂ : List Lexeme}
    (hls : ls = ls₁ ++ ls₂) :
    t.slice (ls₁.flatMap fun l => l.text).length n = (ls₂.flatMap fun l => l.text) ++ w := by
  subst hls
  rw [List.flatMap_append, List.length_append] at hn
  have htext := h.text_eq
  rw [List.flatMap_append] at htext
  have hpiece := Text.slice_append (ls₁.flatMap fun l => l.text)
    ((ls₂.flatMap fun l => l.text) ++ w) x
  rw [List.length_append, ← Int.natCast_add, ← Nat.add_assoc, hn] at hpiece
  rw [← hpiece, ← htext]
  simp only [List.append_assoc]

/-- Only white space is blank, and that is not the last lexeme before a cut. -/
theorem eq_nil_of_blank (h : Cut t ls w x) {ls₁ ls₂ : List Lexeme} (hls : ls = ls₁ ++ ls₂)
    (hblank : (ls₂.flatMap fun l => l.text).all isIndentation = true) : ls₂ = [] := by
  rcases List.eq_nil_or_concat ls₂ with hnil | ⟨init, m, rfl⟩
  · exact hnil
  · exfalso
    rw [List.concat_eq_append] at hls hblank
    have hm : m ∈ ls.getLast? := by
      rw [hls, ← List.append_assoc, List.getLast?_concat]
      rfl
    have hform := h.formed (List.mem_of_mem_getLast? hm)
    obtain ⟨c, rest, hcons⟩ := List.exists_cons_of_ne_nil hform.text_ne_nil
    have hc : c.isIndentation = true := by
      rw [List.all_eq_true] at hblank
      apply hblank
      rw [List.flatMap_append, List.flatMap_singleton, hcons]
      exact List.mem_append_right _ List.mem_cons_self
    have hhead : m.text.head? = some c := by rw [hcons, List.head?_cons]
    exact (h.ends m hm).1 ((hform.isSpace_iff hhead).mp (isSpace_of_isIndentation hc))

/-- **The atom before a cut**, with nothing but blanks between them, is the last of the lexemes. -/
theorem exists_atom_iff (h : Cut t ls w x) {n : Nat}
    (hn : (ls.flatMap fun l => l.text).length + w.length = n) :
    (∃ u ∈ tokenize t, u.kind = .atom ∧ u.stop ≤ n ∧ (t.slice u.stop n).all isIndentation = true ∧
        escapesNext u.text.trimmed = true) ↔
      ∃ l ∈ ls.getLast?, l.kind = .atom ∧ w.all isIndentation = true ∧
        escapesNext l.text.trimmed = true := by
  have htokens := tokenize_of_lexemes h.lexemes_eq
  constructor
  · rintro ⟨u, hu, hkind, hstop, hblank, hescapes⟩
    have hlt := (ordered_tokenize t).start_lt_stop u hu
    rw [htokens] at hu
    rcases List.mem_append.mp hu with hu | hu
    · obtain ⟨ls₁, ls₂, hls, hstart, hend⟩ := exists_around_of_mem_layOut hu
      have hend : u.stop = ((ls₁ ++ [u.toLexeme]).flatMap fun l => l.text).length := by
        rw [hend, hstart, List.flatMap_append, List.flatMap_singleton, List.length_append]
        omega
      have hls' : ls = (ls₁ ++ [u.toLexeme]) ++ ls₂ := by
        rw [hls, List.append_assoc]
        rfl
      rw [hend, h.slice_eq hn hls', List.all_append, Bool.and_eq_true] at hblank
      obtain rfl := h.eq_nil_of_blank hls' hblank.1
      refine ⟨u.toLexeme, ?_, hkind, hblank.2, hescapes⟩
      rw [hls, List.getLast?_concat]
      rfl
    · have hspace := kind_eq_of_mem_layOut h.all_isSpace hu (by omega) hlt
      rw [hkind] at hspace
      cases hspace
  · rintro ⟨l, hl, hkind, hblank, hescapes⟩
    obtain ⟨init, rfl⟩ := List.getLast?_eq_some_iff.mp hl
    have hstop : (init.flatMap fun l => l.text).length + l.text.length =
        ((init ++ [l]).flatMap fun l => l.text).length := by
      rw [List.flatMap_append, List.flatMap_singleton, List.length_append]
    refine ⟨⟨l, ⟨(init.flatMap fun l => l.text).length,
      (init.flatMap fun l => l.text).length + l.text.length⟩⟩, ?_, hkind, ?_, ?_, hescapes⟩
    · rw [htokens, layOut_append, Int.zero_add]
      exact List.mem_append_left _ (List.mem_append_right _ List.mem_cons_self)
    · show ((init.flatMap fun l => l.text).length : Int) + l.text.length ≤ n
      omega
    · show (t.slice ((init.flatMap fun l => l.text).length + l.text.length) n).all _ = true
      rw [← Int.natCast_add, hstop, h.slice_eq hn (List.append_nil _).symm]
      exact hblank

end Cut

end SexpEditing
