import Mathlib.Data.List.Chain
import SexpEditing.Proofs.Token.Locality

/-!
# The form of lexemes

A lexeme can be told by its own text, and from what follows it only by its first units: white space,
a comment to the end of the line and an atom end before a unit that would go on with them, a comma
before anything but an at sign. So a list of lexemes is what its own text is split into exactly if
each of them has the form of its kind, and each may stand directly before the next one.

## Main definitions

* `escapesNext`: whether a text escapes the unit that follows it
* `Lexeme.Formed`: a lexeme has the form of its kind
* `Lexeme.EndsBefore`: a text does not go on with a lexeme
* `Lexeme.Adjoins`: a lexeme may stand directly before another
* `Lexeme.Steady`: a lexeme does not take along whatever follows
* `Lexeme.blank`: one blank, which may stand almost anywhere

## Main results

* `nextLexeme_eq_some_iff`: the first lexeme of a text, by its form and by what follows
* `lexemes_flatMap_text`: lexemes that may stand as they do are read as they stand
* `isChain_lexemes`: what the lexemes of any text are like
-/

namespace SexpEditing

open CodeUnit

/-! ### Escapes -/

/-- Whether a text escapes the unit that follows it: read from the left, where each backslash takes
the unit after it along, it ends with a backslash that has taken nothing yet. -/
def escapesNext : Text → Bool
  | [] => false
  | [backslash] => true
  | backslash :: _ :: rest => escapesNext rest
  | _ :: rest => escapesNext rest

theorem escapesNext_escape (c : CodeUnit) (rest : Text) :
    escapesNext (backslash :: c :: rest) = escapesNext rest :=
  escapesNext.eq_3 c rest

theorem escapesNext_cons {c : CodeUnit} (hc : c ≠ backslash) (rest : Text) :
    escapesNext (c :: rest) = escapesNext rest := by
  rw [escapesNext.eq_4]
  · exact fun h _ => hc h
  · exact fun _ _ h _ => hc h

/-! ### Tails that end -/

/-- The rest of a string ends by itself. -/
theorem stringTail_self {t tail after : Text} (h : stringTail t = some (tail, after)) :
    stringTail tail = some (tail, []) := by
  fun_induction stringTail t generalizing tail after with
  | case1 => cases h
  | case2 rest =>
    cases h
    rfl
  | case3 c rest ih =>
    obtain ⟨split, hs, he⟩ := Option.map_eq_some_iff.mp h
    cases he
    have hc := stringTail.eq_3 c split.1
    rw [ih hs] at hc
    exact hc
  | case4 => cases h
  | case5 c rest hq hb hc ih =>
    obtain ⟨split, hs, he⟩ := Option.map_eq_some_iff.mp h
    cases he
    rw [List.singleton_append, stringTail.eq_4 _ _ hq (fun d r hd => absurd hd hc), if_neg hc,
      ih hs]
    rfl

theorem blockCommentTail_self {depth : Nat} {t tail after : Text}
    (h : blockCommentTail depth t = some (tail, after)) :
    blockCommentTail depth tail = some (tail, []) := by
  fun_induction blockCommentTail depth t generalizing tail after with
  | case1 depth rest ih =>
    obtain ⟨split, hs, he⟩ := Option.map_eq_some_iff.mp h
    cases he
    have ho := blockCommentTail.eq_1 depth split.1
    rw [ih hs] at ho
    exact ho
  | case2 rest =>
    cases h
    rfl
  | case3 rest outer ih =>
    obtain ⟨split, hs, he⟩ := Option.map_eq_some_iff.mp h
    cases he
    have hc := blockCommentTail.eq_3 split.1 outer
    rw [ih hs] at hc
    exact hc
  | case4 depth c rest ho hc ih =>
    obtain ⟨split, hs, he⟩ := Option.map_eq_some_iff.mp h
    cases he
    -- a marker at the front of the tail would be one at the front of the text
    have happend := blockCommentTail_append hs
    rw [List.singleton_append, blockCommentTail.eq_4, ih hs]
    · rfl
    · rintro r rfl hr
      rw [hr] at happend
      exact ho _ rfl happend.symm
    · rintro r rfl hr
      rw [hr] at happend
      exact hc _ rfl happend.symm
  | case5 => cases h

/-- The rest of an atom ends by itself, and nothing after it goes on with it. -/
theorem atomTail_self (t : Text) :
    atomTail (atomTail t).1 = ((atomTail t).1, []) ∧
      ((atomTail t).2 = [] ∨
        escapesNext (atomTail t).1 = false ∧ (atomTail (atomTail t).2).1 = []) := by
  fun_induction atomTail t with
  | case1 => exact ⟨atomTail_nil, .inl rfl⟩
  | case2 c rest ih =>
    obtain ⟨hself, hafter⟩ := ih
    have hescape := atomTail_escape c (atomTail rest).1
    rw [hself] at hescape
    refine ⟨hescape, ?_⟩
    rw [prepend_fst, prepend_snd]
    have hnext := escapesNext_escape c (atomTail rest).1
    exact hafter.imp_right fun h => ⟨hnext.trans h.1, h.2⟩
  | case3 rest =>
    exact ⟨atomTail_nil, .inr ⟨rfl, congrArg Prod.fst (atomTail_blockComment rest)⟩⟩
  | case4 c rest hb hs hc ih =>
    obtain ⟨hself, hafter⟩ := ih
    have happend := atomTail_append rest
    rw [prepend_fst, prepend_snd, List.singleton_append]
    constructor
    · rw [atomTail_cons, if_pos hc, hself]
      · rfl
      · rintro d r rfl hr
        rw [hr] at happend
        exact hb d _ rfl happend.symm
      · rintro r rfl hr
        rw [hr] at happend
        exact hs _ rfl happend.symm
    · by_cases hback : c = backslash
      · -- a backslash alone is the last unit of the text
        left
        cases rest with
        | nil => rw [atomTail_nil]
        | cons d rest => exact absurd rfl (hb d rest hback)
      · exact hafter.imp_right fun h => ⟨(escapesNext_cons hback _).trans h.1, h.2⟩
  | case5 c rest hb hs hc =>
    refine ⟨atomTail_nil, .inr ⟨rfl, ?_⟩⟩
    rw [atomTail_cons (fun d r h => (hb d r h ·)) (fun r h => (hs r h ·)), if_neg hc]

/-- A text that is an atom's rest ends before a text that does not go on with it. -/
theorem atomTail_append_of_not_escapesNext {t x : Text} (ht : (atomTail t).2 = [])
    (he : escapesNext t = false) (hx : (atomTail x).1 = []) : atomTail (t ++ x) = (t, x) := by
  have hx' := atomTail_append x
  rw [hx, List.nil_append] at hx'
  fun_induction atomTail t with
  | case1 => exact Prod.ext hx hx'
  | case2 c rest ih =>
    have hescape := atomTail_escape c (rest ++ x)
    rw [ih ht ((escapesNext_escape c rest).symm.trans he)] at hescape
    exact hescape
  | case3 rest => cases ht
  | case4 c rest hb hs hc ih =>
    have hback : c ≠ backslash := by
      rintro rfl
      cases rest with
      | nil => cases he
      | cons d rest => exact hb d rest rfl rfl
    rw [escapesNext_cons hback] at he
    rw [List.cons_append, atomTail_cons (fun d r hd => absurd hd hback), if_pos hc, ih ht he]
    · rfl
    · rintro r rfl hr
      cases rest with
      | nil =>
        -- an asterisk behind the slash would go on with the atom
        rw [List.nil_append] at hr
        rw [hr, atomTail_of_isAtomUnit rfl] at hx
        cases hx
      | cons d rest =>
        cases hr
        exact hs rest rfl rfl
  | case5 => cases ht

/-! ### The form of a lexeme, and where it ends -/

/-- The units that may stand in a comment to the end of the line. -/
def isLineCommentUnit (c : CodeUnit) : Bool := c != lineFeed && c != carriageReturn

namespace Lexeme

/-- A lexeme has the form of its kind. -/
inductive Formed : Lexeme → Prop
  | space {w : Text} (hne : w ≠ []) (hw : w.all isSpace) : Formed ⟨.space, w⟩
  | lineComment {body : Text} (hb : body.all isLineCommentUnit) :
      Formed ⟨.comment, semicolon :: body⟩
  | blockComment {body : Text} (hb : blockCommentTail 0 body = some (body, [])) :
      Formed ⟨.comment, slash :: asterisk :: body⟩
  | opener : Formed ⟨.opener, [leftParen]⟩
  | closer : Formed ⟨.closer, [rightParen]⟩
  | mark {c : CodeUnit} (hc : isMarkUnit c) : Formed ⟨.mark, [c]⟩
  | splicingMark : Formed ⟨.mark, [comma, atSign]⟩
  | atom {c : CodeUnit} {rest : Text} (hc : beginsAtom c)
      (hs : ∀ r, c = slash → rest ≠ asterisk :: r) (ht : (atomTail (c :: rest)).2 = []) :
      Formed ⟨.atom, c :: rest⟩
  | string {body : Text} (hb : stringTail body = some (body, [])) :
      Formed ⟨.string, quotationMark :: body⟩

/-- A lexeme ends where a text follows: the text does not go on with it. -/
def EndsBefore (l : Lexeme) (x : Text) : Prop :=
  match l.kind with
  | .space => x.takeWhile isSpace = []
  | .comment => l.text.head? = some semicolon → x.takeWhile isLineCommentUnit = []
  | .mark => l.text = [comma] → x.head? ≠ some atSign
  | .atom => x = [] ∨ escapesNext l.text = false ∧ (atomTail x).1 = []
  | .opener | .closer | .string => True

theorem endsBefore_nil (l : Lexeme) : l.EndsBefore [] := by
  unfold EndsBefore
  cases l.kind with
  | space => rfl
  | comment => exact fun _ => rfl
  | mark => exact fun _ h => by cases h
  | atom => exact .inl rfl
  | opener | closer | string => trivial

theorem takeWhile_dropWhile_append {p : CodeUnit → Bool} {w x : Text} (hw : w.all p)
    (hx : x.takeWhile p = []) : (w ++ x).takeWhile p = w ∧ (w ++ x).dropWhile p = x := by
  have hall : ∀ c ∈ w, p c = true := List.all_eq_true.mp hw
  have hsplit := List.takeWhile_append_dropWhile (p := p) (l := x)
  rw [hx, List.nil_append] at hsplit
  rw [List.takeWhile_append_of_pos hall, List.dropWhile_append_of_pos hall, hx, hsplit]
  exact ⟨List.append_nil w, rfl⟩

/-- A lexeme of the right form is read where it ends. -/
theorem Formed.nextLexeme_append {l : Lexeme} (h : l.Formed) {x : Text} (hx : l.EndsBefore x) :
    nextLexeme (l.text ++ x) = some (l, x) := by
  cases h with
  | @space w hne hw =>
    have hx : x.takeWhile isSpace = [] := hx
    obtain ⟨-, hdrop⟩ := takeWhile_dropWhile_append (w := []) rfl hx
    rw [List.nil_append] at hdrop
    rw [nextLexeme_spaces hw hne x, hx, hdrop, List.append_nil]
  | @lineComment body hb =>
    obtain ⟨htake, hdrop⟩ := takeWhile_dropWhile_append hb (hx rfl)
    have hn : nextLexeme (semicolon :: (body ++ x)) =
        some (⟨.comment, semicolon :: (body ++ x).takeWhile isLineCommentUnit⟩,
          (body ++ x).dropWhile isLineCommentUnit) := rfl
    rwa [htake, hdrop] at hn
  | @blockComment body hb =>
    have hn : nextLexeme (slash :: asterisk :: (body ++ x)) =
        (blockCommentTail 0 (body ++ x)).map fun split =>
          (⟨.comment, slash :: asterisk :: split.1⟩, split.2) := rfl
    rwa [blockCommentTail_append_right hb x] at hn
  | opener => rfl
  | closer => rfl
  | @mark c hc =>
    refine nextLexeme_of_isMarkUnit hc fun r hr hxr => ?_
    have hxr : x = atSign :: r := hxr
    rw [hxr, hr] at hx
    exact hx rfl rfl
  | splicingMark => rfl
  | @atom c rest hc hs ht =>
    have hwhole : atomTail (c :: (rest ++ x)) = (c :: rest, x) := by
      rcases hx with rfl | ⟨he, hx⟩
      · have happend := atomTail_append (c :: rest)
        rw [ht, List.append_nil] at happend
        rw [List.append_nil]
        exact Prod.ext happend ht
      · exact atomTail_append_of_not_escapesNext ht he hx
    have hs' : ∀ r, c = slash → rest ++ x ≠ asterisk :: r := by
      rintro r rfl hr
      rw [hr, atomTail_blockComment] at hwhole
      cases hwhole
    have hn := nextLexeme_of_beginsAtom hc hs'
    rwa [hwhole] at hn
  | @string body hb =>
    have hn : nextLexeme (quotationMark :: (body ++ x)) =
        (stringTail (body ++ x)).map fun split => (⟨.string, quotationMark :: split.1⟩, split.2) :=
      rfl
    rwa [stringTail_append_right hb x] at hn

theorem takeWhile_dropWhile (p : CodeUnit → Bool) (x : Text) :
    (x.dropWhile p).takeWhile p = [] := by
  induction x with
  | nil => rfl
  | cons c x ih =>
    by_cases hc : p c
    · rwa [List.dropWhile_cons_of_pos hc]
    · rw [List.dropWhile_cons_of_neg hc, List.takeWhile_cons_of_neg hc]

/-- What is read has the right form, and ends where it was read. -/
theorem formed_of_nextLexeme {t x : Text} {l : Lexeme} (h : nextLexeme t = some (l, x)) :
    l.Formed ∧ l.EndsBefore x := by
  have h' := h
  revert h
  fun_cases nextLexeme t with
  | case1 =>
    intro h
    cases h
  | case2 rest =>
    intro h
    obtain ⟨split, hs, he⟩ := Option.map_eq_some_iff.mp h
    cases he
    exact ⟨.blockComment (blockCommentTail_self hs), fun h => by cases h⟩
  | case3 rest =>
    rintro ⟨⟩
    exact ⟨.splicingMark, fun h => by cases h⟩
  | case4 c rest _ _ hc =>
    rintro ⟨⟩
    refine ⟨.space (List.cons_ne_nil _ _) ?_, ?_⟩
    · rw [List.all_cons, hc, List.all_takeWhile]
      rfl
    · exact takeWhile_dropWhile isSpace rest
  | case5 rest =>
    rintro ⟨⟩
    exact ⟨.lineComment List.all_takeWhile, fun _ => takeWhile_dropWhile isLineCommentUnit rest⟩
  | case6 rest =>
    rintro ⟨⟩
    exact ⟨.opener, trivial⟩
  | case7 rest =>
    rintro ⟨⟩
    exact ⟨.closer, trivial⟩
  | case8 rest =>
    intro h
    obtain ⟨split, hs, he⟩ := Option.map_eq_some_iff.mp h
    cases he
    exact ⟨.string (stringTail_self hs), trivial⟩
  | case9 c rest _ hm _ _ _ _ _ hc =>
    rintro ⟨⟩
    refine ⟨.mark hc, fun hcomma hx => ?_⟩
    obtain ⟨r, hr⟩ := List.head?_eq_some_iff.mp hx
    exact hm r (List.cons.inj hcomma).1 hr
  | case10 c rest hs hm h₁ h₂ h₃ h₄ h₅ h₆ y z hyz =>
    rintro ⟨⟩
    obtain ⟨hself, hafter⟩ := atomTail_self (c :: rest)
    obtain ⟨hbegins, hslash⟩ := beginsAtom_of_nextLexeme h'
    rw [hyz] at hself hafter
    -- the atom begins with the first unit of the text
    have happend : y ++ x = c :: rest := nextLexeme_append h'
    obtain ⟨d, y, rfl⟩ := List.exists_cons_of_ne_nil (text_ne_nil_of_nextLexeme h')
    obtain ⟨rfl, rfl⟩ := List.cons.inj happend
    refine ⟨.atom hbegins (fun r hd hy => ?_) (congrArg Prod.snd hself), hafter⟩
    subst hy
    exact hslash _ hd rfl

/-- **The first lexeme of a text**: it has the form of its kind, and what follows does not go on
with it. -/
theorem nextLexeme_eq_some_iff {t x : Text} {l : Lexeme} :
    nextLexeme t = some (l, x) ↔ l.Formed ∧ l.EndsBefore x ∧ l.text ++ x = t := by
  constructor
  · intro h
    obtain ⟨hform, hends⟩ := formed_of_nextLexeme h
    exact ⟨hform, hends, nextLexeme_append h⟩
  · rintro ⟨hform, hends, rfl⟩
    exact hform.nextLexeme_append hends

/-! ### Neighbours -/

/-- A lexeme may stand directly before another one, and both stay what they are. -/
def Adjoins (l m : Lexeme) : Prop :=
  match l.kind with
  | .space => m.kind ≠ .space
  | .comment => l.text.head? = some semicolon → ∀ c ∈ m.text.head?, isLineCommentUnit c = false
  | .mark => l.text = [comma] → m.text.head? ≠ some atSign
  | .atom => m.kind ≠ .atom ∧ m.kind ≠ .mark ∧ escapesNext l.text = false
  | .opener | .closer | .string => True

/-- Not an atom whose last backslash takes along what follows. -/
def Steady (l : Lexeme) : Prop := l.kind = .atom → escapesNext l.text = false

theorem Adjoins.steady {l m : Lexeme} (h : l.Adjoins m) : l.Steady := by
  intro hk
  unfold Adjoins at h
  rw [hk] at h
  exact h.2.2

/-- One blank. -/
def blank : Lexeme := ⟨.space, [space]⟩

theorem formed_blank : blank.Formed := .space (List.cons_ne_nil _ _) rfl

/-- A blank may stand before a lexeme that carries structure. -/
theorem blank_adjoins {l : Lexeme} (hl : l.kind.isTrivia = false) : blank.Adjoins l := by
  intro hspace
  rw [hspace] at hl
  cases hl

/-- Behind a lexeme that carries structure may stand what begins neither an atom nor a mark. -/
theorem Steady.adjoins {l m : Lexeme} (hs : l.Steady) (hl : l.kind.isTrivia = false)
    (ha : m.kind ≠ .atom) (hm : m.kind ≠ .mark) (hat : m.text.head? ≠ some atSign) :
    l.Adjoins m := by
  unfold Adjoins
  cases hk : l.kind with
  | space | comment => rw [hk] at hl; cases hl
  | opener | closer | string => trivial
  | mark => exact fun _ => hat
  | atom => exact ⟨ha, hm, hs hk⟩

theorem adjoins_blank {l : Lexeme} (hl : l.kind.isTrivia = false) (hs : l.Steady) :
    l.Adjoins blank :=
  hs.adjoins hl (by decide) (by decide) (by decide)

theorem Formed.adjoins_closer {l m : Lexeme} (h : m.Formed) (hm : m.kind = .closer)
    (hl : l.kind.isTrivia = false) (hs : l.Steady) : l.Adjoins m := by
  cases h with
  | closer => exact hs.adjoins hl (by decide) (by decide) (by decide)
  | _ => cases hm

theorem Formed.text_ne_nil {l : Lexeme} (h : l.Formed) : l.text ≠ [] := by
  cases h with
  | space hne => exact hne
  | _ => exact List.cons_ne_nil _ _

/-- Only white space begins with white space. -/
theorem Formed.isSpace_iff {l : Lexeme} (h : l.Formed) {c : CodeUnit} (hc : l.text.head? = some c) :
    c.isSpace = true ↔ l.kind = .space := by
  cases h with
  | @space w hne hw =>
    have hmem := List.mem_of_head? hc
    exact iff_of_true (List.all_eq_true.mp hw c hmem) rfl
  | @mark d hd =>
    obtain rfl : d = c := Option.some.inj hc
    refine iff_of_false (fun hs => ?_) (by simp)
    simp only [isMarkUnit, Bool.or_eq_true, beq_iff_eq] at hd
    rcases hd with (rfl | rfl) | rfl <;> cases hs
  | @atom d rest hd =>
    obtain rfl : d = c := Option.some.inj hc
    simp only [beginsAtom, Bool.not_eq_true', Bool.or_eq_false_iff] at hd
    exact iff_of_false (by simp [hd.1.1.1.1.1]) (by simp)
  | lineComment | blockComment | opener | closer | splicingMark | string =>
    cases hc
    exact iff_of_false (by decide) (by simp)

/-- Only an atom and a mark begin with what may stand in an atom. -/
theorem Formed.atomTail_eq_nil_iff {l : Lexeme} (h : l.Formed) {x : Text} (hx : l.EndsBefore x) :
    (atomTail (l.text ++ x)).1 = [] ↔ l.kind ≠ .atom ∧ l.kind ≠ .mark := by
  have hn := h.nextLexeme_append hx
  cases h with
  | @space w hne hw =>
    obtain ⟨c, w, rfl⟩ := List.exists_cons_of_ne_nil hne
    rw [List.all_cons, Bool.and_eq_true] at hw
    exact iff_of_true (congrArg Prod.fst (atomTail_of_isSpace hw.1 _)) (by simp)
  | lineComment | blockComment | opener | closer | string =>
    refine iff_of_true ?_ (by simp)
    rw [List.cons_append, atomTail.eq_def]
    rfl
  | @mark c hc =>
    refine iff_of_false (fun hnil => ?_) (by simp)
    have hunit : isAtomUnit c := by
      simp only [isMarkUnit, Bool.or_eq_true, beq_iff_eq] at hc
      rcases hc with (rfl | rfl) | rfl <;> rfl
    rw [List.cons_append, atomTail_of_isAtomUnit hunit] at hnil
    cases hnil
  | splicingMark =>
    refine iff_of_false (fun hnil => ?_) (by simp)
    rw [List.cons_append, atomTail_of_isAtomUnit rfl] at hnil
    cases hnil
  | @atom c rest hc =>
    refine iff_of_false (fun hnil => ?_) (by simp)
    -- what is read of the atom would be empty
    rw [List.cons_append, nextLexeme_of_beginsAtom hc (beginsAtom_of_nextLexeme hn).2,
      ← List.cons_append, hnil] at hn
    cases hn

/-- **Whether a lexeme ends** before another one can be told from the two. -/
theorem endsBefore_iff_adjoins {l m : Lexeme} (hm : m.Formed) {x : Text} (hx : m.EndsBefore x) :
    l.EndsBefore (m.text ++ x) ↔ l.Adjoins m := by
  obtain ⟨c, rest, hcons⟩ := List.exists_cons_of_ne_nil hm.text_ne_nil
  have hhead : m.text.head? = some c := by rw [hcons, List.head?_cons]
  have htake (p : CodeUnit → Bool) : (m.text ++ x).takeWhile p = [] ↔ p c = false := by
    rw [hcons, List.cons_append, List.takeWhile_cons]
    cases p c <;> simp
  unfold EndsBefore Adjoins
  cases l.kind with
  | space => simp only [htake, ne_eq, ← hm.isSpace_iff hhead, Bool.not_eq_true]
  | comment => simp only [htake, hhead, Option.mem_def, Option.some.injEq, forall_eq']
  | mark => simp only [hcons, List.cons_append, List.head?_cons]
  | atom =>
    have hne : m.text ++ x ≠ [] := by simp [hcons]
    simp only [hm.atomTail_eq_nil_iff hx, hne, false_or]
    rw [and_comm, and_assoc]
  | opener | closer | string => rfl

end Lexeme

/-! ### Lists of lexemes -/

theorem isChain_and_formed (t : Text) :
    (lexemes t).IsChain Lexeme.Adjoins ∧ ∀ l ∈ lexemes t, l.Formed := by
  fun_induction lexemes t with
  | case1 => exact ⟨.nil, by simp⟩
  | case2 t l after hn ih =>
    obtain ⟨hform, hends⟩ := Lexeme.formed_of_nextLexeme hn
    obtain ⟨hchain, hforms⟩ := ih
    refine ⟨hchain.cons fun m hm => ?_, fun m hm => ?_⟩
    · -- the next lexeme is at the front of the text behind this one
      cases hn' : nextLexeme after with
      | none =>
        rw [lexemes_of_none hn'] at hm
        cases hm
      | some next =>
        obtain ⟨m', after'⟩ := next
        rw [lexemes_of_some hn'] at hm
        obtain rfl : m' = m := Option.some.inj hm
        obtain ⟨hform', hends', happend⟩ := Lexeme.nextLexeme_eq_some_iff.mp hn'
        rw [← happend] at hends
        exact (Lexeme.endsBefore_iff_adjoins hform' hends').mp hends
    · rcases List.mem_cons.mp hm with rfl | hm
      · exact hform
      · exact hforms m hm

/-- **The lexemes of a text** have the forms of their kinds. -/
theorem formed_of_mem_lexemes {t : Text} {l : Lexeme} (h : l ∈ lexemes t) : l.Formed :=
  (isChain_and_formed t).2 l h

/-- **Neighbouring lexemes** may stand next to each other. -/
theorem isChain_lexemes (t : Text) : (lexemes t).IsChain Lexeme.Adjoins := (isChain_and_formed t).1

/-- All lexemes of a text but the last one have a neighbour that they may stand before. -/
theorem steady_of_mem_dropLast {t : Text} {l : Lexeme} (h : l ∈ (lexemes t).dropLast) :
    l.Steady := by
  obtain ⟨init, rest, hsplit⟩ := List.append_of_mem h
  have hne : lexemes t ≠ [] := by
    intro hnil
    rw [hnil] at h
    cases h
  have hlast := List.dropLast_concat_getLast hne
  have hchain := isChain_lexemes t
  rw [← hlast, hsplit, List.append_assoc, List.cons_append] at hchain
  have hnext := hchain.right_of_append
  obtain ⟨m, rest', hcons⟩ : ∃ m rest', rest ++ [(lexemes t).getLast hne] = m :: rest' :=
    List.exists_cons_of_ne_nil (by simp)
  rw [hcons] at hnext
  exact (List.isChain_cons_cons.mp hnext).1.steady

/-- What follows a lexeme in a list does not go on with it. -/
theorem Lexeme.endsBefore_of_isChain {l : Lexeme} {ls : List Lexeme}
    (hchain : (l :: ls).IsChain Lexeme.Adjoins) (hform : ∀ m ∈ ls, m.Formed) :
    l.EndsBefore (ls.flatMap fun m => m.text) := by
  induction ls generalizing l with
  | nil => exact l.endsBefore_nil
  | cons m ls ih =>
    obtain ⟨hadjoins, hchain⟩ := List.isChain_cons_cons.mp hchain
    have hends := ih hchain fun n hn => hform n (List.mem_cons_of_mem m hn)
    rw [List.flatMap_cons]
    exact (Lexeme.endsBefore_iff_adjoins (hform m (by simp)) hends).mpr hadjoins

/-- Lexemes that may stand as they do are read as they stand. -/
theorem lexemes_flatMap_text {ls : List Lexeme} (hchain : ls.IsChain Lexeme.Adjoins)
    (hform : ∀ l ∈ ls, l.Formed) : lexemes (ls.flatMap fun l => l.text) = ls := by
  induction ls with
  | nil => exact lexemes_of_none rfl
  | cons l ls ih =>
    have hforms : ∀ m ∈ ls, m.Formed := fun m hm => hform m (List.mem_cons_of_mem l hm)
    have hends := Lexeme.endsBefore_of_isChain hchain hforms
    rw [List.flatMap_cons, lexemes_of_some ((hform l (by simp)).nextLexeme_append hends),
      ih hchain.tail hforms]

end SexpEditing
