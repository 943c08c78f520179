import SexpEditing.Proofs.Token.Order

/-!
# What a text leaves open

Lexemes are taken off the front of a text, and one that is followed by more text stays what it is
when the text grows. Only the last lexeme, or the string or the block comment that has no end yet,
may become another one: it is what the text leaves pending.

## Main definitions

* `Reads`: some lexemes, each followed by more text, and the text after them
* `pending`: the part of a text that what follows may still change
* `Unfinished`, `AtomSoFar`: strings and comments without an end, and atoms that may go on

## Main results

* `nextLexeme_append_right`: a lexeme that is followed by more text stays when the text grows
* `pending_append`: only the pending part counts for what follows
* `pending_cases`: what a text that ends with a line feed leaves pending
-/

namespace SexpEditing

open CodeUnit

/-- A text after which a line may start. -/
def EndsLine (t : Text) : Prop := t = [] ∨ t.getLast? = some lineFeed

theorem EndsLine.of_cons {c : CodeUnit} {t : Text} (h : EndsLine (c :: t)) : EndsLine t := by
  cases t with
  | nil => exact .inl rfl
  | cons d t =>
    rcases h with h | h
    · cases h
    · exact .inr (by rwa [List.getLast?_cons_cons] at h)

theorem EndsLine.getLast?_eq {t : Text} (h : EndsLine t) (hne : t ≠ []) :
    t.getLast? = some lineFeed :=
  h.resolve_left hne

/-! ### Growing texts -/

theorem stringTail_append_right {t tail after : Text} (h : stringTail t = some (tail, after))
    (x : Text) : stringTail (t ++ x) = some (tail, after ++ x) := by
  fun_induction stringTail t generalizing tail after with
  | case1 => cases h
  | case2 rest =>
    cases h
    rfl
  | case3 c rest ih =>
    obtain ⟨split, hs, he⟩ := Option.map_eq_some_iff.mp h
    cases he
    simp only [List.cons_append, stringTail, ih hs, Option.map_some]
    rfl
  | case4 => cases h
  | case5 c rest hq hb hc ih =>
    obtain ⟨split, hs, he⟩ := Option.map_eq_some_iff.mp h
    cases he
    rw [List.cons_append, stringTail.eq_4 _ _ hq (fun d r hd => absurd hd hc), if_neg hc, ih hs]
    rfl

theorem blockCommentTail_append_right {depth : Nat} {t tail after : Text}
    (h : blockCommentTail depth t = some (tail, after)) (x : Text) :
    blockCommentTail depth (t ++ x) = some (tail, after ++ x) := by
  fun_induction blockCommentTail depth t generalizing tail after with
  | case1 depth rest ih =>
    obtain ⟨split, hs, he⟩ := Option.map_eq_some_iff.mp h
    cases he
    simp only [List.cons_append, blockCommentTail, ih hs, Option.map_some]
    rfl
  | case2 rest =>
    cases h
    rfl
  | case3 outer rest ih =>
    obtain ⟨split, hs, he⟩ := Option.map_eq_some_iff.mp h
    cases he
    simp only [List.cons_append, blockCommentTail, ih hs, Option.map_some]
    rfl
  | case4 depth c rest ho hc ih =>
    obtain ⟨split, hs, he⟩ := Option.map_eq_some_iff.mp h
    cases he
    cases rest with
    | nil => cases hs
    | cons d rest =>
      -- which units come first is known already
      have ho' : ∀ r, c = slash → d :: (rest ++ x) ≠ asterisk :: r := by
        rintro r rfl hr
        cases hr
        exact ho rest rfl rfl
      have hc' : ∀ r, c = asterisk → d :: (rest ++ x) ≠ slash :: r := by
        rintro r rfl hr
        cases hr
        exact hc rest rfl rfl
      have ih := ih hs
      rw [List.cons_append] at ih
      rw [List.cons_append, List.cons_append, blockCommentTail.eq_4 depth _ _ ho' hc', ih]
      rfl
  | case5 => cases h

theorem atomTail_nil : atomTail [] = ([], []) := by
  rw [atomTail.eq_def]

theorem atomTail_escape (c : CodeUnit) (rest : Text) :
    atomTail (backslash :: c :: rest) = prepend [backslash, c] (atomTail rest) := by
  rw [atomTail.eq_def]
  rfl

theorem atomTail_blockComment (rest : Text) :
    atomTail (slash :: asterisk :: rest) = ([], slash :: asterisk :: rest) := by
  rw [atomTail.eq_def]
  rfl

/-- A unit that begins neither an escape nor a block comment. -/
theorem atomTail_cons {c : CodeUnit} {rest : Text} (hb : ∀ d r, c = backslash → rest ≠ d :: r)
    (hs : ∀ r, c = slash → rest ≠ asterisk :: r) :
    atomTail (c :: rest) =
      if isAtomUnit c || c == backslash || c == slash then prepend [c] (atomTail rest)
      else ([], c :: rest) := by
  rw [atomTail.eq_def]
  split
  · next h => cases h
  · next h =>
    cases h
    exact absurd rfl (hb _ _ rfl)
  · next h =>
    cases h
    exact absurd rfl (hs _ rfl)
  · next h =>
    cases h
    rfl

/-- A unit that may stand in an atom without more ado. -/
theorem atomTail_of_isAtomUnit {c : CodeUnit} (hc : isAtomUnit c) (rest : Text) :
    atomTail (c :: rest) = prepend [c] (atomTail rest) := by
  rw [atomTail_cons, if_pos (by rw [hc]; rfl)]
  · rintro d r rfl
    cases hc
  · rintro r rfl
    cases hc

/-- What can be at the front of an atom's rest. -/
theorem of_atomTail_ne_nil {c : CodeUnit} {rest : Text} (h : (atomTail (c :: rest)).1 ≠ []) :
    (isAtomUnit c ∨ c = backslash ∨ c = slash) ∧ ∀ r, c = slash → rest ≠ asterisk :: r := by
  have hs : ∀ r, c = slash → rest ≠ asterisk :: r := by
    rintro r rfl rfl
    exact h (congrArg Prod.fst (atomTail_blockComment r))
  refine ⟨?_, hs⟩
  by_cases hb : c = backslash
  · exact .inr (.inl hb)
  · rw [atomTail_cons (fun d r hc => absurd hc hb) hs] at h
    split at h
    · next hc => simpa [or_assoc] using hc
    · exact absurd rfl h

theorem atomTail_append_right {t : Text} (h : (atomTail t).2 ≠ []) (x : Text) :
    atomTail (t ++ x) = ((atomTail t).1, (atomTail t).2 ++ x) := by
  fun_induction atomTail t with
  | case1 => exact absurd rfl h
  | case2 c rest ih =>
    rw [prepend_snd] at h
    have hx := atomTail_escape c (rest ++ x)
    rw [ih h] at hx
    exact hx
  | case3 rest => exact atomTail_blockComment (rest ++ x)
  | case4 c rest hb hs hc ih =>
    rw [prepend_snd] at h
    -- a unit before the end of the atom, so the next unit is known
    cases rest with
    | nil =>
      rw [atomTail_nil] at h
      exact absurd rfl h
    | cons d rest =>
      rw [List.cons_append, atomTail_cons, if_pos hc, ih h]
      · rfl
      · rintro e r rfl -
        exact hb d rest rfl rfl
      · rintro r rfl hr
        cases hr
        exact hs rest rfl rfl
  | case5 c rest hb hs hc =>
    rw [List.cons_append, atomTail_cons, if_neg hc]
    · rintro d r rfl
      exact absurd rfl hc
    · rintro r rfl
      exact absurd rfl hc

theorem takeWhile_append_of_ne_nil {p : CodeUnit → Bool} {t : Text} (h : t.dropWhile p ≠ [])
    (x : Text) : (t ++ x).takeWhile p = t.takeWhile p := by
  rw [List.takeWhile_append, if_neg]
  intro hlen
  have := congrArg List.length (List.takeWhile_append_dropWhile (p := p) (l := t))
  rw [List.length_append] at this
  exact h (List.length_eq_zero_iff.mp (by omega))

theorem dropWhile_append_of_ne_nil {p : CodeUnit → Bool} {t : Text} (h : t.dropWhile p ≠ [])
    (x : Text) : (t ++ x).dropWhile p = t.dropWhile p ++ x := by
  rw [List.dropWhile_append, if_neg (by simpa using h)]

/-- A single unit leaves nothing after it. -/
theorem eq_nil_of_nextLexeme_singleton {c : CodeUnit} {after : Text} {l : Lexeme}
    (h : nextLexeme [c] = some (l, after)) : after = [] := by
  have happend := congrArg List.length (nextLexeme_append h)
  have hpos := List.length_pos_iff.mpr (text_ne_nil_of_nextLexeme h)
  rw [List.length_append, List.length_singleton] at happend
  exact List.length_eq_zero_iff.mp (by omega)

/-- A lexeme that neither begins a block comment nor is a mark of two units: the first unit
decides. -/
theorem nextLexeme_cons {c : CodeUnit} {rest : Text} (hs : ∀ r, c = slash → rest ≠ asterisk :: r)
    (hm : ∀ r, c = comma → rest ≠ atSign :: r) :
    nextLexeme (c :: rest) =
      if c.isSpace then
        some (⟨.space, c :: rest.takeWhile isSpace⟩, rest.dropWhile isSpace)
      else if c = semicolon then
        some (⟨.comment, c :: rest.takeWhile fun d => d != lineFeed && d != carriageReturn⟩,
          rest.dropWhile fun d => d != lineFeed && d != carriageReturn)
      else if c = leftParen then some (⟨.opener, [c]⟩, rest)
      else if c = rightParen then some (⟨.closer, [c]⟩, rest)
      else if c = quotationMark then
        (stringTail rest).map fun (tail, after) => (⟨.string, c :: tail⟩, after)
      else if isMarkUnit c then some (⟨.mark, [c]⟩, rest)
      else some (⟨.atom, (atomTail (c :: rest)).1⟩, (atomTail (c :: rest)).2) := by
  unfold nextLexeme
  split
  · next h => cases h
  · next r h =>
    cases h
    exact absurd rfl (hs r rfl)
  · next r h =>
    cases h
    exact absurd rfl (hm r rfl)
  · next h =>
    cases h
    rfl

/-- **A lexeme that is followed by more text** stays when the text grows. -/
theorem nextLexeme_append_right {t after : Text} {l : Lexeme} (h : nextLexeme t = some (l, after))
    (hne : after ≠ []) (x : Text) : nextLexeme (t ++ x) = some (l, after ++ x) := by
  rcases t with - | ⟨c, - | ⟨d, rest⟩⟩
  · cases h
  · exact absurd (eq_nil_of_nextLexeme_singleton h) hne
  · by_cases hs : c = slash ∧ d = asterisk
    · obtain ⟨rfl, rfl⟩ := hs
      obtain ⟨split, hsplit, he⟩ := Option.map_eq_some_iff.mp h
      cases he
      exact Option.map_eq_some_iff.mpr ⟨_, blockCommentTail_append_right hsplit x, rfl⟩
    by_cases hm : c = comma ∧ d = atSign
    · obtain ⟨rfl, rfl⟩ := hm
      cases h
      rfl
    -- in all other cases the first two units decide which lexeme it is
    have hs' {r r' : Text} : c = slash → d :: r = asterisk :: r' → False := by
      rintro hc ⟨⟩
      exact hs ⟨hc, rfl⟩
    have hm' {r r' : Text} : c = comma → d :: r = atSign :: r' → False := by
      rintro hc ⟨⟩
      exact hm ⟨hc, rfl⟩
    rw [nextLexeme_cons (fun _ => hs') fun _ => hm'] at h
    rw [List.cons_append, List.cons_append, nextLexeme_cons (fun _ => hs') fun _ => hm',
      ← List.cons_append]
    split at h
    · next hspace =>
      cases h
      rw [if_pos hspace, takeWhile_append_of_ne_nil hne, dropWhile_append_of_ne_nil hne]
    next hspace =>
    rw [if_neg hspace]
    split at h
    · next hsemi =>
      cases h
      rw [if_pos hsemi, takeWhile_append_of_ne_nil hne, dropWhile_append_of_ne_nil hne]
    next hsemi =>
    rw [if_neg hsemi]
    split at h
    · next hopen =>
      cases h
      rw [if_pos hopen]
    next hopen =>
    rw [if_neg hopen]
    split at h
    · next hclose =>
      cases h
      rw [if_pos hclose]
    next hclose =>
    rw [if_neg hclose]
    split at h
    · next hquote =>
      obtain ⟨split, hsplit, he⟩ := Option.map_eq_some_iff.mp h
      cases he
      rw [if_pos hquote, stringTail_append_right hsplit]
      rfl
    next hquote =>
    rw [if_neg hquote]
    split at h
    · next hmark =>
      cases h
      rw [if_pos hmark]
    next hmark =>
    rw [if_neg hmark]
    cases h
    have hgrow := atomTail_append_right hne x
    rw [List.cons_append, List.cons_append] at hgrow
    rw [List.cons_append, hgrow]

/-! ### What is read, and what is pending -/

/-- The lexemes `ls` are taken off the front of a text, each of them followed by more text, and
leave the text `rest`. -/
inductive Reads : Text → List Lexeme → Text → Prop
  | refl (t : Text) : Reads t [] t
  | step {t after rest : Text} {l : Lexeme} {ls : List Lexeme} (hn : nextLexeme t = some (l, after))
      (hne : after ≠ []) (h : Reads after ls rest) : Reads t (l :: ls) rest

/-- A text that is a string or a block comment without an end. -/
def Unfinished (t : Text) : Prop := nextLexeme t = none ∧ t ≠ []

/-- The part of a text that what follows may still change: its last lexeme, or the string or block
comment that has no end yet. -/
def pending (t : Text) : Text :=
  match _h : nextLexeme t with
  | none => t
  | some (_, after) => if after = [] then t else pending after
termination_by t.length
decreasing_by exact length_lt_of_nextLexeme _h

theorem pending_of_none {t : Text} (h : nextLexeme t = none) : pending t = t := by
  rw [pending]
  split
  · rfl
  · next h' => rw [h] at h'; cases h'

theorem pending_of_last {t : Text} {l : Lexeme} (h : nextLexeme t = some (l, [])) :
    pending t = t := by
  rw [pending]
  split
  · rfl
  · next h' =>
    rw [h] at h'
    cases h'
    exact if_pos rfl

theorem pending_of_step {t after : Text} {l : Lexeme} (h : nextLexeme t = some (l, after))
    (hne : after ≠ []) : pending t = pending after := by
  rw [pending]
  split
  · next h' => rw [h] at h'; cases h'
  · next h' =>
    rw [h] at h'
    cases h'
    exact if_neg hne

namespace Reads

variable {t rest : Text} {ls : List Lexeme}

theorem trans {rest' : Text} {ls' : List Lexeme} (h : Reads t ls rest) (h' : Reads rest ls' rest') :
    Reads t (ls ++ ls') rest' := by
  induction h with
  | refl => exact h'
  | step hn hne _ ih => exact .step hn hne (ih h')

/-- What was read stays when the text grows. -/
theorem append_right (h : Reads t ls rest) (x : Text) : Reads (t ++ x) ls (rest ++ x) := by
  induction h with
  | refl => exact .refl _
  | step hn hne _ ih =>
    exact .step (nextLexeme_append_right hn hne x) (by simp [hne]) ih

theorem lexemes_eq (h : Reads t ls rest) : lexemes t = ls ++ lexemes rest := by
  induction h with
  | refl => rfl
  | step hn _ _ ih => rw [lexemes_of_some hn, ih, List.cons_append]

theorem pending_eq (h : Reads t ls rest) : pending t = pending rest := by
  induction h with
  | refl => rfl
  | step hn hne _ ih => rw [pending_of_step hn hne, ih]

theorem flatMap_append (h : Reads t ls rest) : (ls.flatMap fun l => l.text) ++ rest = t := by
  induction h with
  | refl => rfl
  | step hn _ _ ih => rw [List.flatMap_cons, List.append_assoc, ih, nextLexeme_append hn]

theorem rest_ne_nil (h : Reads t ls rest) (ht : t ≠ []) : rest ≠ [] := by
  induction h with
  | refl => exact ht
  | step _ hne _ ih => exact ih hne

end Reads

/-- All lexemes but the pending one can be read. -/
theorem exists_reads_pending (t : Text) : ∃ ls, Reads t ls (pending t) := by
  fun_induction pending t with
  | case1 t => exact ⟨[], .refl t⟩
  | case2 t => exact ⟨[], .refl t⟩
  | case3 t l after hn hne ih =>
    obtain ⟨ls, hls⟩ := ih
    exact ⟨l :: ls, .step hn hne hls⟩

/-- **Only the pending part counts** for what follows. -/
theorem pending_append (t x : Text) : pending (t ++ x) = pending (pending t ++ x) := by
  obtain ⟨ls, h⟩ := exists_reads_pending t
  exact (h.append_right x).pending_eq

/-- What is pending is one lexeme, or none could be read. -/
theorem nextLexeme_pending (t : Text) :
    nextLexeme (pending t) = none ∨ ∃ l, nextLexeme (pending t) = some (l, []) := by
  fun_induction pending t with
  | case1 t hn => exact .inl hn
  | case2 t l hn => exact .inr ⟨l, hn⟩
  | case3 t l after hn hne ih => exact ih

theorem pending_ne_nil {t : Text} (h : t ≠ []) : pending t ≠ [] := by
  obtain ⟨ls, hreads⟩ := exists_reads_pending t
  exact hreads.rest_ne_nil h

/-- What is pending ends as the text does. -/
theorem EndsLine.pending {t : Text} (h : EndsLine t) : EndsLine (pending t) := by
  rcases h with rfl | h
  · exact .inl (pending_of_none rfl)
  · obtain ⟨ls, hreads⟩ := exists_reads_pending t
    have hne : t ≠ [] := by
      rintro rfl
      cases h
    -- what is pending is not empty and ends the text
    obtain ⟨s, d, hd⟩ := (List.eq_nil_or_concat (SexpEditing.pending t)).resolve_left
      (pending_ne_nil hne)
    rw [← hreads.flatMap_append, hd, List.concat_eq_append, ← List.append_assoc,
      List.getLast?_concat] at h
    refine .inr ?_
    rw [hd, List.concat_eq_append, List.getLast?_concat, h]

/-! ### White space -/

theorem nextLexeme_space {c : CodeUnit} (hc : c.isSpace) (rest : Text) :
    nextLexeme (c :: rest) =
      some (⟨.space, c :: rest.takeWhile isSpace⟩, rest.dropWhile isSpace) := by
  rw [nextLexeme_cons, if_pos hc]
  · rintro r rfl -
    cases hc
  · rintro r rfl -
    cases hc

/-- White space in front of a text is a lexeme, unless that begins with white space itself. -/
theorem nextLexeme_spaces {w : Text} (hw : w.all isSpace) (hne : w ≠ []) (x : Text) :
    nextLexeme (w ++ x) =
      some (⟨.space, w ++ x.takeWhile isSpace⟩, x.dropWhile isSpace) := by
  obtain ⟨c, w, rfl⟩ := List.exists_cons_of_ne_nil hne
  rw [List.all_cons, Bool.and_eq_true] at hw
  have hall : ∀ d ∈ w, isSpace d = true := List.all_eq_true.mp hw.2
  rw [List.cons_append, nextLexeme_space hw.1, List.takeWhile_append_of_pos hall,
    List.dropWhile_append_of_pos hall]
  rfl

/-! ### Atoms that a line break belongs to -/

/-- A text that is one atom so far, and a longer one if an atom may go on with what follows. -/
def AtomSoFar (t : Text) : Prop :=
  nextLexeme t = some (⟨.atom, t⟩, []) ∧ t.getLast? = some lineFeed

theorem stringTail_ends {t tail after : Text} (h : stringTail t = some (tail, after)) :
    tail.getLast? = some quotationMark := by
  fun_induction stringTail t generalizing tail after with
  | case1 => cases h
  | case2 rest =>
    cases h
    rfl
  | case3 c rest ih =>
    obtain ⟨split, hs, he⟩ := Option.map_eq_some_iff.mp h
    cases he
    rw [List.getLast?_append, ih hs]
    rfl
  | case4 => cases h
  | case5 c rest hq hb hc ih =>
    obtain ⟨split, hs, he⟩ := Option.map_eq_some_iff.mp h
    cases he
    rw [List.getLast?_append, ih hs]
    rfl

theorem blockCommentTail_ends {depth : Nat} {t tail after : Text}
    (h : blockCommentTail depth t = some (tail, after)) : tail.getLast? = some slash := by
  fun_induction blockCommentTail depth t generalizing tail after with
  | case2 rest =>
    cases h
    rfl
  | case5 => cases h
  | case1 depth rest ih | case3 outer rest ih | case4 depth c rest _ _ ih =>
    obtain ⟨split, hs, he⟩ := Option.map_eq_some_iff.mp h
    cases he
    rw [List.getLast?_append, ih hs]
    rfl

/-- Only white space and atoms end with a line feed. -/
theorem of_nextLexeme_of_getLast? {t : Text} {l : Lexeme} (h : nextLexeme t = some (l, []))
    (hlast : t.getLast? = some lineFeed) : t.all isSpace ∨ AtomSoFar t := by
  -- the lexeme is all of the text, so it is the one that ends with the line feed
  have htext : l.text = t := by
    have := nextLexeme_append h
    rwa [List.append_nil] at this
  rw [← htext] at hlast
  have h' := h
  revert h
  fun_cases nextLexeme t with
  | case1 => intro h; cases h
  | case2 rest =>
    intro h
    obtain ⟨split, hs, he⟩ := Option.map_eq_some_iff.mp h
    obtain ⟨rfl, -⟩ := Prod.mk.inj he
    have := blockCommentTail_ends hs
    simp only [List.getLast?_cons, this] at hlast
    cases hlast
  | case3 rest =>
    rintro ⟨⟩
    cases hlast
  | case4 c rest _ _ hspace =>
    intro h
    obtain ⟨-, hdrop⟩ := Prod.mk.inj (Option.some.inj h)
    have hrest := List.takeWhile_append_dropWhile (p := isSpace) (l := rest)
    rw [hdrop, List.append_nil] at hrest
    have hall := List.all_takeWhile (p := isSpace) (l := rest)
    rw [hrest] at hall
    exact .inl (by rw [List.all_cons, hspace, hall]; rfl)
  | case5 rest =>
    -- a comment on one line stops before the line feed
    intro h
    obtain ⟨rfl, -⟩ := Prod.mk.inj (Option.some.inj h)
    rw [List.getLast?_cons] at hlast
    cases htake : (rest.takeWhile fun d => d != lineFeed && d != carriageReturn).getLast? with
    | none =>
      rw [htake] at hlast
      cases hlast
    | some d =>
      rw [htake] at hlast
      have hd := List.all_eq_true.mp (List.all_takeWhile (l := rest)) d
        (List.mem_of_getLast? htake)
      cases hlast
      cases hd
  | case6 rest =>
    rintro ⟨⟩
    cases hlast
  | case7 rest =>
    rintro ⟨⟩
    cases hlast
  | case8 rest =>
    intro h
    obtain ⟨split, hs, he⟩ := Option.map_eq_some_iff.mp h
    obtain ⟨rfl, -⟩ := Prod.mk.inj he
    have := stringTail_ends hs
    simp only [List.getLast?_cons, this] at hlast
    cases hlast
  | case9 c rest _ _ _ _ _ _ _ hmark =>
    rintro ⟨⟩
    cases hlast
    cases hmark
  | case10 c rest _ _ _ _ _ _ _ _ x y hxy =>
    intro h
    obtain ⟨rfl, rfl⟩ := Prod.mk.inj (Option.some.inj h)
    refine .inr ⟨?_, ?_⟩
    · rw [h', ← htext]
    · rw [← htext]
      exact hlast

/-- The units that begin an atom: neither white space nor a delimiter nor a mark. -/
def beginsAtom (c : CodeUnit) : Bool :=
  !(c.isSpace || c == semicolon || c == leftParen || c == rightParen || c == quotationMark ||
    isMarkUnit c)

theorem nextLexeme_of_isMarkUnit {c : CodeUnit} (hc : isMarkUnit c) {rest : Text}
    (hm : ∀ r, c = comma → rest ≠ atSign :: r) :
    nextLexeme (c :: rest) = some (⟨.mark, [c]⟩, rest) := by
  have hs : ∀ r, c = slash → rest = asterisk :: r → False := by
    rintro r rfl
    cases hc
  rw [nextLexeme_cons hs hm]
  have hc' := hc
  simp only [isMarkUnit, Bool.or_eq_true, beq_iff_eq] at hc'
  rcases hc' with (rfl | rfl) | rfl <;> rfl

theorem nextLexeme_of_beginsAtom {c : CodeUnit} (hc : beginsAtom c) {rest : Text}
    (hs : ∀ r, c = slash → rest ≠ asterisk :: r) :
    nextLexeme (c :: rest) =
      some (⟨.atom, (atomTail (c :: rest)).1⟩, (atomTail (c :: rest)).2) := by
  simp only [beginsAtom, Bool.not_eq_true', Bool.or_eq_false_iff, beq_eq_false_iff_ne] at hc
  obtain ⟨⟨⟨⟨⟨h₁, h₂⟩, h₃⟩, h₄⟩, h₅⟩, h₆⟩ := hc
  have hm : ∀ r, c = comma → rest = atSign :: r → False := by
    rintro r rfl
    cases h₆
  rw [nextLexeme_cons hs hm, if_neg (by simp [h₁]), if_neg h₂, if_neg h₃, if_neg h₄,
    if_neg h₅, if_neg (by simp [h₆])]

/-- What may stand in an atom begins one, apart from the marks. -/
theorem beginsAtom_of_not_isMarkUnit {c : CodeUnit}
    (hc : isAtomUnit c ∨ c = backslash ∨ c = slash) (hm : ¬ isMarkUnit c) : beginsAtom c := by
  rcases hc with hc | rfl | rfl
  · simp only [isAtomUnit, Bool.not_eq_true', Bool.or_eq_false_iff] at hc
    obtain ⟨⟨⟨⟨⟨⟨h₁, h₂⟩, h₃⟩, h₄⟩, h₅⟩, -⟩, -⟩ := hc
    simp [beginsAtom, h₁, h₂, h₃, h₄, h₅, hm]
  · rfl
  · rfl

theorem beginsAtom_of_nextLexeme {c : CodeUnit} {rest text after : Text}
    (h : nextLexeme (c :: rest) = some (⟨.atom, text⟩, after)) :
    beginsAtom c ∧ ∀ r, c = slash → rest ≠ asterisk :: r := by
  by_cases hs : ∃ r, c = slash ∧ rest = asterisk :: r
  · obtain ⟨r, rfl, rfl⟩ := hs
    obtain ⟨split, -, he⟩ := Option.map_eq_some_iff.mp h
    cases he
  by_cases hm : ∃ r, c = comma ∧ rest = atSign :: r
  · obtain ⟨r, rfl, rfl⟩ := hm
    cases h
  have hs' : ∀ r, c = slash → rest = asterisk :: r → False := fun r hc hr => hs ⟨r, hc, hr⟩
  rw [nextLexeme_cons hs' fun r hc hr => hm ⟨r, hc, hr⟩] at h
  refine ⟨?_, hs'⟩
  simp only [beginsAtom, Bool.not_eq_true', Bool.or_eq_false_iff, beq_eq_false_iff_ne]
  split at h
  · cases h
  next h₁ =>
  split at h
  · cases h
  next h₂ =>
  split at h
  · cases h
  next h₃ =>
  split at h
  · cases h
  next h₄ =>
  split at h
  · obtain ⟨split, -, he⟩ := Option.map_eq_some_iff.mp h
    cases he
  next h₅ =>
  split at h
  · cases h
  next h₆ =>
  exact ⟨⟨⟨⟨⟨by simpa using h₁, h₂⟩, h₃⟩, h₄⟩, h₅⟩, by simpa using h₆⟩

/-- Where an escaped line feed ends a part of an atom, the atom goes on behind it. -/
theorem atomTail_append_of_ends {t : Text} (h : (atomTail t).2 = [])
    (hlast : EndsLine t) (x : Text) : atomTail (t ++ x) = prepend t (atomTail x) := by
  fun_induction atomTail t with
  | case1 => rfl
  | case2 c rest ih =>
    rw [prepend_snd] at h
    have hx := atomTail_escape c (rest ++ x)
    rw [ih h hlast.of_cons.of_cons] at hx
    exact hx
  | case3 rest => cases h
  | case4 c rest hb hs hc ih =>
    rw [prepend_snd] at h
    cases rest with
    | nil =>
      -- a line feed cannot stand in an atom by itself
      rcases hlast with hlast | hlast
      · cases hlast
      · cases hlast
        cases hc
    | cons d rest =>
      rw [List.cons_append, atomTail_cons, if_pos hc, ih h hlast.of_cons]
      · rfl
      · rintro e r rfl -
        exact hb d rest rfl rfl
      · rintro r rfl hr
        cases hr
        exact hs rest rfl rfl
  | case5 c rest hb hs hc => cases h

/-- An atom so far takes along what may stand in an atom. -/
theorem AtomSoFar.nextLexeme_append {t : Text} (h : AtomSoFar t) (x : Text) :
    nextLexeme (t ++ x) = some (⟨.atom, t ++ (atomTail x).1⟩, (atomTail x).2) := by
  obtain ⟨hn, hlast⟩ := h
  rcases t with - | ⟨c, - | ⟨d, rest⟩⟩
  · cases hlast
  · -- one unit alone would be the line feed
    cases hlast
    cases hn
  · obtain ⟨hc, hs⟩ := beginsAtom_of_nextLexeme hn
    have htail := nextLexeme_of_beginsAtom hc hs
    rw [hn] at htail
    obtain ⟨-, htail⟩ := Prod.mk.inj (Option.some.inj htail)
    have hgrow := atomTail_append_of_ends htail.symm (.inr hlast) x
    have hs' : ∀ r, c = slash → d :: (rest ++ x) ≠ asterisk :: r := by
      rintro r rfl hr
      cases hr
      exact hs rest rfl rfl
    have hnext := nextLexeme_of_beginsAtom hc hs'
    rw [List.cons_append, List.cons_append] at hgrow ⊢
    rw [hnext, hgrow]
    rfl

theorem atomTail_of_isSpace {c : CodeUnit} (hc : c.isSpace) (rest : Text) :
    atomTail (c :: rest) = ([], c :: rest) := by
  rw [atomTail_cons, if_neg]
  · simp only [isAtomUnit, hc, Bool.true_or, Bool.not_true, Bool.false_or, Bool.or_eq_true,
      beq_iff_eq]
    rintro (rfl | rfl) <;> cases hc
  · rintro d r rfl
    cases hc
  · rintro r rfl
    cases hc

/-- An atom ends before white space. -/
theorem AtomSoFar.nextLexeme_append_spaces {t : Text} (h : AtomSoFar t) {b : Text}
    (hb : b.all isSpace) (hne : b ≠ []) (x : Text) :
    nextLexeme (t ++ (b ++ x)) = some (⟨.atom, t⟩, b ++ x) := by
  obtain ⟨c, b, rfl⟩ := List.exists_cons_of_ne_nil hne
  rw [List.all_cons, Bool.and_eq_true] at hb
  rw [h.nextLexeme_append, List.cons_append, atomTail_of_isSpace hb.1, List.append_nil]

/-- Where blanks follow, or nothing that an atom may hold, the atom ends. -/
theorem AtomSoFar.nextLexeme_of_ends {t : Text} (h : AtomSoFar t) {b : Text} (hb : b.all isSpace)
    {x : Text} (hx : b ≠ [] ∨ (atomTail x).1 = []) :
    nextLexeme (t ++ (b ++ x)) = some (⟨.atom, t⟩, b ++ x) := by
  by_cases hbn : b = []
  · have htail := hx.resolve_left fun h => h hbn
    have happend := atomTail_append x
    rw [htail, List.nil_append] at happend
    rw [hbn, List.nil_append, h.nextLexeme_append x, htail, List.append_nil, happend]
  · exact h.nextLexeme_append_spaces hb hbn x

theorem AtomSoFar.ne_nil {t : Text} (h : AtomSoFar t) : t ≠ [] := by
  rintro rfl
  cases h.2

theorem AtomSoFar.not_all_isSpace {t : Text} (h : AtomSoFar t) : ¬ t.all isSpace := by
  intro hs
  have := nextLexeme_spaces hs h.ne_nil []
  rw [List.append_nil, h.1] at this
  cases this

/-- **What a text that ends with a line feed leaves pending**: something without an end, white
space, or an atom that the line feed belongs to. -/
theorem pending_cases {t : Text} (h : EndsLine t) :
    (pending t).all isSpace ∨ AtomSoFar (pending t) ∨ Unfinished (pending t) := by
  rcases h with rfl | h
  · exact .inl (by rw [pending_of_none rfl]; rfl)
  · have hne : t ≠ [] := by
      rintro rfl
      cases h
    have hlast := (EndsLine.pending (.inr h)).getLast?_eq (pending_ne_nil hne)
    rcases nextLexeme_pending t with hn | ⟨l, hn⟩
    · exact .inr (.inr ⟨hn, pending_ne_nil hne⟩)
    · rcases of_nextLexeme_of_getLast? hn hlast with hspace | hatom
      · exact .inl hspace
      · exact .inr (.inl hatom)

end SexpEditing
