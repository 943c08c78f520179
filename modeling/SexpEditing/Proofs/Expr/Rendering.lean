import SexpEditing.Proofs.Expr.Corresponding
import SexpEditing.Proofs.Expr.Rereading
import SexpEditing.Proofs.Token.Merging

/-!
# Rendered expressions

The text of an expression has one blank between the items of a list, and nothing else that carries
no structure. Read as a text of its own it gives the expression back, if its tokens are split as
they were: a mark is put directly before what it quotes, so a comma must not come before an atom
that begins with an at-sign. In the text that the expression was read from, a blank stood between
the two.

## Main definitions

* `Expr.written`: the lexemes that the text of an expression is put together from
* `Expr.Spaced`: some tokens written one behind the other, with a blank in some of the gaps
* `Expr.FromText`: what is known of an expression that was read from a text

## Main results

* `Expr.Spaced.isChain`: what stands next to each other in the text of an expression
* `Expr.FromText.isChain_written_iff`: when the tokens stay apart
* `Expr.render_reads_back_iff`: when an expression is read back from its text
-/

namespace SexpEditing

open CodeUnit

namespace Expr

/-! ### The text of an expression -/

mutual

/-- The lexemes that the text of an expression is put together from. -/
def written : Expr → List Lexeme
  | .list opener items closer =>
    opener.toLexeme :: (writtenItems items ++ closer.toList.map Token.toLexeme)
  | .quoted _ mark inner => mark.toLexeme :: inner.written
  | .atom t | .string t | .stray t => [t.toLexeme]

/-- The lexemes of expressions, with one blank between them. -/
def writtenItems : List Expr → List Lexeme
  | [] => []
  | [e] => e.written
  | e :: rest => e.written ++ Lexeme.blank :: writtenItems rest

end

mutual

theorem flatMap_text_written : ∀ e : Expr, (e.written.flatMap fun l => l.text) = e.render
  | .list opener items closer => by
    cases closer <;> simp [written, render, flatMap_text_writtenItems items]
  | .quoted _ mark inner => by
    rw [written, render, List.flatMap_cons, flatMap_text_written inner]
  | .atom t | .string t | .stray t => by rw [written, render, List.flatMap_singleton]

theorem flatMap_text_writtenItems :
    ∀ es : List Expr, ((writtenItems es).flatMap fun l => l.text) = renderItems es
  | [] => rfl
  | [e] => by rw [writtenItems, renderItems, flatMap_text_written e]
  | e :: f :: rest => by
    have hrest := flatMap_text_writtenItems (f :: rest)
    rw [writtenItems, renderItems, List.flatMap_append, List.flatMap_cons, hrest,
      flatMap_text_written e]
    · rfl
    · simp
    · simp

end

mutual

/-- The lexemes of a part stand together. -/
theorem exists_around_written {e : Expr} : ∀ {f : Expr}, e ∈ f.parts →
    ∃ pre post, f.written = pre ++ e.written ++ post
  | .list opener items closer, h => by
    rw [parts, List.mem_cons] at h
    rcases h with rfl | h
    · exact ⟨[], [], by simp⟩
    · obtain ⟨pre, post, hitems⟩ := exists_around_writtenItems h
      exact ⟨opener.toLexeme :: pre, post ++ closer.toList.map Token.toLexeme,
        by simp [written, hitems]⟩
  | .quoted style mark inner, h => by
    rw [parts, List.mem_cons] at h
    rcases h with rfl | h
    · exact ⟨[], [], by simp⟩
    · obtain ⟨pre, post, hinner⟩ := exists_around_written h
      exact ⟨mark.toLexeme :: pre, post, by simp [written, hinner]⟩
  | .atom t, h | .string t, h | .stray t, h => by
    obtain rfl := List.mem_singleton.mp h
    exact ⟨[], [], by simp⟩

theorem exists_around_writtenItems {e : Expr} : ∀ {es : List Expr}, e ∈ partsOf es →
    ∃ pre post, writtenItems es = pre ++ e.written ++ post
  | [], h => by cases h
  | [f], h => by
    rw [partsOf, partsOf, List.append_nil] at h
    exact exists_around_written h
  | f :: g :: rest, h => by
    have hcons : writtenItems (f :: g :: rest) =
        f.written ++ Lexeme.blank :: writtenItems (g :: rest) := by
      rw [writtenItems]
      simp
    rw [partsOf, List.mem_append] at h
    rcases h with h | h
    · obtain ⟨pre, post, hf⟩ := exists_around_written h
      exact ⟨pre, post ++ Lexeme.blank :: writtenItems (g :: rest), by simp [hcons, hf]⟩
    · obtain ⟨pre, post, hrest⟩ := exists_around_writtenItems h
      exact ⟨f.written ++ Lexeme.blank :: pre, post, by simp [hcons, hrest]⟩

end

/-! ### Tokens with blanks in some of the gaps -/

/-- Some tokens written one behind the other. Between two of them there is one blank, or nothing if
the two may be put together. -/
inductive Spaced (G : Lexeme → Lexeme → Prop) : List Token → List Lexeme → Prop
  | single (t : Token) : Spaced G [t] [t.toLexeme]
  | glued {t u : Token} {ts : List Token} {ls : List Lexeme} (h : G t.toLexeme u.toLexeme)
      (hs : Spaced G (u :: ts) ls) : Spaced G (t :: u :: ts) (t.toLexeme :: ls)
  | blank {t u : Token} {ts : List Token} {ls : List Lexeme} (hs : Spaced G (u :: ts) ls) :
      Spaced G (t :: u :: ts) (t.toLexeme :: Lexeme.blank :: ls)

namespace Spaced

variable {G : Lexeme → Lexeme → Prop} {ts us : List Token} {ls ms : List Lexeme}

/-- A token that may be put before the first one. -/
theorem cons (h : Spaced G ts ls) {t : Token} (ht : ∀ u ∈ ts.head?, G t.toLexeme u.toLexeme) :
    Spaced G (t :: ts) (t.toLexeme :: ls) := by
  cases ts with
  | nil => cases h
  | cons u ts => exact .glued (ht u rfl) h

/-- A token that may be put behind any other. -/
theorem concat (h : Spaced G ts ls) {c : Token} (hc : ∀ l, G l c.toLexeme) :
    Spaced G (ts ++ [c]) (ls ++ [c.toLexeme]) := by
  induction h with
  | single t => exact .glued (hc t.toLexeme) (.single c)
  | glued h _ ih => exact .glued h ih
  | blank _ ih => exact .blank ih

/-- A blank between the two. -/
theorem append (h : Spaced G ts ls) (h' : Spaced G us ms) :
    Spaced G (ts ++ us) (ls ++ Lexeme.blank :: ms) := by
  induction h with
  | single t =>
    cases us with
    | nil => cases h'
    | cons u us => exact .blank h'
  | glued h _ ih => exact .glued h ih
  | blank _ ih => exact .blank ih

theorem formed (h : Spaced G ts ls) (hts : ∀ t ∈ ts, t.toLexeme.Formed) :
    ∀ l ∈ ls, l.Formed := by
  induction h with
  | single t => simpa using hts
  | glued _ _ ih =>
    intro l hl
    rcases List.mem_cons.mp hl with rfl | hl
    · exact hts _ (by simp)
    · exact ih (fun t ht => hts t (List.mem_cons_of_mem _ ht)) l hl
  | blank _ ih =>
    intro l hl
    rcases List.mem_cons.mp hl with rfl | hl
    · exact hts _ (by simp)
    · rcases List.mem_cons.mp hl with rfl | hl
      · exact Lexeme.formed_blank
      · exact ih (fun t ht => hts t (List.mem_cons_of_mem _ ht)) l hl

/-- What carries structure are the tokens. -/
theorem significant_eq (h : Spaced G ts ls) (hts : ∀ t ∈ ts, t.isTrivia = false) :
    Lexeme.significant ls = ts.map Token.toLexeme := by
  have hcons {t : Token} (ht : t.isTrivia = false) (ms : List Lexeme) :
      Lexeme.significant (t.toLexeme :: ms) = t.toLexeme :: Lexeme.significant ms :=
    List.filter_cons_of_pos (by simpa [Token.isTrivia] using ht)
  induction h with
  | single t => exact hcons (hts t (by simp)) []
  | glued _ _ ih =>
    rw [hcons (hts _ (by simp)), ih fun t ht => hts t (List.mem_cons_of_mem _ ht)]
    rfl
  | blank _ ih =>
    rw [hcons (hts _ (by simp)), List.map_cons,
      ← ih fun t ht => hts t (List.mem_cons_of_mem _ ht)]
    rfl

end Spaced

/-- What may be put together: an opener and anything behind it, anything and a closer behind it, and
what is put together as it has a property. -/
def Glues (P : Lexeme → Lexeme → Prop) (l m : Lexeme) : Prop :=
  l.kind = .opener ∨ m.kind = .closer ∨ P l m

variable {P : Lexeme → Lexeme → Prop}

/-- **What stands next to each other** in the text of an expression. -/
theorem Spaced.isChain {ts : List Token} {ls : List Lexeme} (h : Spaced (Glues P) ts ls)
    (hP : ∀ l m, l.Adjoins m → P l m) (hform : ∀ t ∈ ts, t.toLexeme.Formed)
    (hts : ∀ t ∈ ts, t.isTrivia = false) (hsteady : ∀ t ∈ ts.dropLast, t.toLexeme.Steady) :
    ls.IsChain P ∧ ls.head? = ts.head?.map Token.toLexeme := by
  induction h with
  | single t => exact ⟨.singleton _, rfl⟩
  | @glued t u ts ls hG _ ih =>
    obtain ⟨hchain, hhead⟩ := ih (fun v hv => hform v (List.mem_cons_of_mem _ hv))
      (fun v hv => hts v (List.mem_cons_of_mem _ hv))
      fun v hv => hsteady v (List.mem_cons_of_mem _ hv)
    refine ⟨hchain.cons fun m hm => ?_, rfl⟩
    rw [hhead] at hm
    obtain rfl := Option.some.inj hm
    have ht : t.toLexeme.kind.isTrivia = false := hts t (by simp)
    rcases hG with ho | hc | hG
    · refine hP _ _ ?_
      rw [Lexeme.Adjoins, ho]
      trivial
    · exact hP _ _ ((hform u (by simp)).adjoins_closer hc ht (hsteady t (by simp)))
    · exact hG
  | @blank t u ts ls _ ih =>
    obtain ⟨hchain, hhead⟩ := ih (fun v hv => hform v (List.mem_cons_of_mem _ hv))
      (fun v hv => hts v (List.mem_cons_of_mem _ hv))
      fun v hv => hsteady v (List.mem_cons_of_mem _ hv)
    have ht : t.toLexeme.kind.isTrivia = false := hts t (by simp)
    refine ⟨List.isChain_cons_cons.mpr ⟨hP _ _ (Lexeme.adjoins_blank ht (hsteady t (by simp))),
      hchain.cons fun m hm => ?_⟩, rfl⟩
    rw [hhead] at hm
    obtain rfl := Option.some.inj hm
    exact hP _ _ (Lexeme.blank_adjoins (hts u (by simp)))

/-! ### Trees -/

theorem spaced_writtenItems {G : Lexeme → Lexeme → Prop} {e : Expr} {es : List Expr}
    (h : ∀ f ∈ e :: es, Spaced G f.tokens f.written) :
    Spaced G (tokensOf (e :: es)) (writtenItems (e :: es)) := by
  induction es generalizing e with
  | nil =>
    rw [tokensOf_cons, tokensOf_nil, List.append_nil, writtenItems]
    exact h e (by simp)
  | cons f es ih =>
    rw [tokensOf_cons, writtenItems]
    · exact (h e (by simp)).append (ih fun g hg => h g (List.mem_cons_of_mem e hg))
    · simp

theorem spaced_list {opener : Token} {items : List Expr} {closer : Option Token}
    (ho : opener.kind = .opener) (hc : ∀ c ∈ closer, c.kind = .closer)
    (hi : ∀ e ∈ items, Spaced (Glues P) e.tokens e.written) :
    Spaced (Glues P) (list opener items closer).tokens (list opener items closer).written := by
  have hopener (ts : List Token) :
      ∀ u ∈ ts.head?, Glues P opener.toLexeme u.toLexeme := fun _ _ => .inl ho
  rw [tokens, written]
  cases items with
  | nil =>
    cases closer with
    | none => exact .single opener
    | some c => exact .glued (.inl ho) (.single c)
  | cons e items =>
    have hitems := spaced_writtenItems hi
    cases closer with
    | none => simpa using hitems.cons (hopener _)
    | some c => exact (hitems.concat fun _ => .inr (.inl (hc c rfl))).cons (hopener _)

/-- **How the tokens of an expression are written**, if each mark may be put before what it
quotes. -/
theorem Sound.spaced {e : Expr} (h : e.Sound)
    (hq : ∀ style mark inner, .quoted style mark inner ∈ e.parts →
      ∀ u ∈ inner.tokens.head?, P mark.toLexeme u.toLexeme) :
    Spaced (Glues P) e.tokens e.written := by
  induction h with
  | closed ho hc _ _ ih =>
    refine spaced_list ho (fun c h => ?_) fun f hf => ih f hf fun s m i h => ?_
    · obtain rfl := Option.some.inj h
      exact hc
    · exact hq s m i (mem_parts_list.mpr (.inr ⟨f, hf, h⟩))
  | unclosed ho _ ih =>
    refine spaced_list ho (by simp) fun f hf => ih f hf fun s m i h => ?_
    exact hq s m i (mem_parts_list.mpr (.inr ⟨f, hf, h⟩))
  | @quoted style mark inner _ _ _ ih =>
    have hinner : ∀ g ∈ inner.parts, g ∈ (Expr.quoted style mark inner).parts :=
      fun g hg => List.mem_cons_of_mem _ hg
    exact (ih fun s m i h => hq s m i (hinner _ h)).cons
      fun u hu => .inr (.inr (hq style mark inner (by simp [parts]) u hu))
  | atom | string | stray => exact .single _

/-! ### Expressions of a text -/

/-- What is known of an expression that was read from a text. -/
structure FromText (e : Expr) : Prop where
  built : e.Built
  formed : ∀ t ∈ e.tokens, t.toLexeme.Formed
  significant : ∀ t ∈ e.tokens, t.isTrivia = false
  /-- Only the last token of a text may take along what follows. -/
  steady : ∀ t ∈ e.tokens.dropLast, t.toLexeme.Steady

/-- **The expressions of a text** are such. -/
theorem fromText_of_mem {t : Text} {es : List Expr} (hes : ofText t = .ok es) {e : Expr}
    (he : e ∈ es) : e.FromText := by
  obtain ⟨es', hes', htokens, hparsed⟩ := exists_parsed t
  obtain rfl : es' = es := Except.ok.inj (hes'.symm.trans hes)
  obtain ⟨init, rest, rfl⟩ := List.append_of_mem he
  -- the tokens of the expression are tokens of the text, in their order
  have hsub : e.tokens.Sublist (significantTokens t) := by
    rw [← htokens, tokensOf_append, tokensOf_cons]
    exact (List.sublist_append_left _ _).trans (List.sublist_append_right _ _)
  have hall : e.tokens.Sublist (tokenize t) := hsub.trans List.filter_sublist
  have hlexemes : (e.tokens.map Token.toLexeme).Sublist (lexemes t) := by
    have hmap := hall.map Token.toLexeme
    rwa [tokenize, Lexeme.map_toLexeme_layOut] at hmap
  refine ⟨hparsed.built e he, fun u hu => ?_, fun u hu => ?_, fun u hu => ?_⟩
  · exact formed_of_mem_lexemes (hlexemes.subset (List.mem_map_of_mem hu))
  · simpa using (List.mem_filter.mp (hsub.subset hu)).2
  · have hdrop := hlexemes.reverse.tail
    rw [List.tail_reverse, List.tail_reverse, List.reverse_sublist, ← List.map_dropLast] at hdrop
    exact steady_of_mem_dropLast (hdrop.subset (List.mem_map_of_mem hu))

variable {e : Expr}

/-- An expression that begins with an atom is one. -/
theorem Sound.eq_atom (h : e.Sound) (hs : e.isStray = false) {u : Token}
    (hu : u ∈ e.tokens.head?) (hk : u.kind = .atom) : e = .atom u := by
  cases h with
  | closed ho | unclosed ho =>
    obtain rfl := Option.some.inj hu
    rw [ho] at hk
    cases hk
  | quoted hm =>
    obtain rfl := Option.some.inj hu
    rw [hm] at hk
    cases hk
  | string ht =>
    obtain rfl := Option.some.inj hu
    rw [ht] at hk
    cases hk
  | atom =>
    obtain rfl := Option.some.inj hu
    rfl
  | stray => cases hs

/-- **What reading back comes to**: the tokens of the expression are those of its text. -/
theorem reads_back_iff (h : e.Built) {t : Text} :
    (∃ f, ofText t = .ok [f] ∧ e.Corresponds (· = ·) f) ↔
      Lexeme.significant (lexemes t) = e.tokens.map Token.toLexeme := by
  rw [← map_toLexeme_significantTokens]
  constructor
  · rintro ⟨f, hf, hcorr⟩
    rw [significantTokens_eq_tokens hf, Token.forall₂_corresponds_eq_iff.mp hcorr.tokens]
  · intro hsignificant
    -- the parser goes the same way over the same lexemes, wherever they stand
    obtain ⟨fs, hfs, hcorr⟩ := exists_parseMany_of_corresponds Lexeme.structural_eq
      (Token.forall₂_corresponds_eq_iff.mpr hsignificant.symm) (parseMany_tokens h)
    rw [parseMany_significantTokens] at hfs
    cases hcorr with
    | @cons _ f _ _ hcorr hnil =>
      cases hnil
      exact ⟨f, hfs, hcorr⟩

namespace FromText

variable (h : e.FromText)
include h

/-- Each mark says how it quotes, and quotes what is no stray token. -/
theorem quoted_spec {style : QuoteStyle} {mark : Token} {inner : Expr}
    (hpart : .quoted style mark inner ∈ e.parts) :
    mark.kind = .mark ∧ mark.text = style.mark ∧ inner.Sound ∧ inner.isStray = false := by
  rcases h.built.of_mem_parts hpart with (hb | ⟨t, ht, -⟩) | hb
  · cases hb with
    | quoted hm hs hw => exact ⟨hm, QuoteStyle.eq_mark_of_ofMark? hs, hw.sound, hw.isStray_eq⟩
  · cases ht
  · cases hb with
    | quoted hm hs hu => exact ⟨hm, QuoteStyle.eq_mark_of_ofMark? hs, hu.sound, hu.isStray_eq⟩

/-- Everything stands as it may, or a comma merges. -/
theorem isChain_written :
    e.written.IsChain fun l m => l.Adjoins m ∨ l.Merges m := by
  have hspaced := h.built.sound.spaced (P := fun l m => l.Adjoins m ∨ l.Merges m)
    fun _ _ _ hpart _ _ => Lexeme.adjoins_or_merges (h.quoted_spec hpart).1 _
  exact (hspaced.isChain (fun _ _ => .inl) h.formed h.significant h.steady).1

/-- **The tokens stay apart** exactly if no comma quotes an atom that begins with an at-sign. -/
theorem isChain_written_iff :
    e.written.IsChain Lexeme.Adjoins ↔ ∀ mark atom,
      .quoted .unquotation mark (.atom atom) ∈ e.parts → atom.text.head? ≠ some atSign := by
  constructor
  · intro hchain mark atom hpart
    obtain ⟨hk, htext, -⟩ := h.quoted_spec hpart
    obtain ⟨pre, post, hsplit⟩ := exists_around_written hpart
    rw [hsplit] at hchain
    have hadjoins := (List.isChain_cons_cons.mp hchain.left_of_append.right_of_append).1
    rw [Lexeme.Adjoins, hk] at hadjoins
    exact hadjoins htext
  · intro hno
    have hspaced := h.built.sound.spaced (P := Lexeme.Adjoins)
      fun style mark inner hpart u hu => ?_
    · exact (hspaced.isChain (fun _ _ => id) h.formed h.significant h.steady).1
    · obtain ⟨hk, htext, hsound, hstray⟩ := h.quoted_spec hpart
      obtain ⟨pre, post, htokens⟩ := exists_around_of_mem_parts hpart
      have hform : u.toLexeme.Formed :=
        h.formed u (by simp [htokens, tokens, List.mem_of_mem_head? hu])
      rw [Lexeme.Adjoins, hk]
      intro hcomma hat
      -- what begins with an at-sign is an atom, and so is the quoted expression
      obtain rfl := hsound.eq_atom hstray hu (hform.kind_eq_atom hat)
      have hstyle : QuoteStyle.ofMark? style.mark = some .unquotation := by
        rw [← htext, hcomma]
        rfl
      rw [QuoteStyle.ofMark?_mark] at hstyle
      obtain rfl := Option.some.inj hstyle
      exact hno mark u hpart hat

theorem reads_back_iff_isChain :
    (∃ f, ofText e.render = .ok [f] ∧ e.Corresponds (· = ·) f) ↔
      e.written.IsChain Lexeme.Adjoins := by
  -- how the text is put together does not matter for what it is put together from
  have hspaced : Spaced (Glues fun _ _ => True) e.tokens e.written :=
    h.built.sound.spaced fun _ _ _ _ _ _ => trivial
  rw [reads_back_iff h.built, ← hspaced.significant_eq h.significant, ← flatMap_text_written]
  exact significant_lexemes_iff (hspaced.formed h.formed) h.isChain_written

end FromText

/-- **When an expression is read back** from its text: exactly if in no place a comma quotes an atom
that begins with an at-sign. -/
theorem render_reads_back_iff (t : Text) :
    ∃ es, ofText t = .ok es ∧ ∀ e ∈ es,
      ((∃ f, ofText e.render = .ok [f] ∧ e.Corresponds (· = ·) f) ↔
        ∀ mark atom, .quoted .unquotation mark (.atom atom) ∈ e.parts →
          atom.text.head? ≠ some atSign) := by
  obtain ⟨es, hes, -⟩ := exists_parsed t
  refine ⟨es, hes, fun e he => ?_⟩
  have h := fromText_of_mem hes he
  rw [h.reads_back_iff_isChain, h.isChain_written_iff]

/-- A comma, a blank, and an atom that begins with an at-sign. -/
theorem render_comma_atSign :
    ∃ e, ofText (Text.ofString ", @x") = .ok [e] ∧ e.render = Text.ofString ",@x" ∧
      ¬ ∃ f, ofText e.render = .ok [f] ∧ e.Corresponds (· = ·) f := by
  have hwhole : Whole (.quoted .unquotation ⟨⟨.mark, Text.ofString ","⟩, ⟨0, 1⟩⟩
      (.atom ⟨⟨.atom, Text.ofString "@x"⟩, ⟨2, 4⟩⟩)) := .quoted rfl (by decide) (.atom rfl)
  have htokens : significantTokens (Text.ofString ", @x") =
      [⟨⟨.mark, Text.ofString ","⟩, ⟨0, 1⟩⟩, ⟨⟨.atom, Text.ofString "@x"⟩, ⟨2, 4⟩⟩] := by
    decide +kernel
  have hrender : (Expr.quoted .unquotation ⟨⟨.mark, Text.ofString ","⟩, ⟨0, 1⟩⟩
      (.atom ⟨⟨.atom, Text.ofString "@x"⟩, ⟨2, 4⟩⟩)).render = Text.ofString ",@x" := by
    decide +kernel
  refine ⟨_, ?_, hrender, ?_⟩
  · rw [← parseMany_significantTokens, htokens]
    exact parseMany_tokens (.inl (.inl hwhole))
  · -- the text has one mark and one atom again, but other ones
    rw [hrender, reads_back_iff (.inl (.inl hwhole))]
    decide +kernel

end Expr

end SexpEditing
