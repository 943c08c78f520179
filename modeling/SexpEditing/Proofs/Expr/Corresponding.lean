import Mathlib.Data.List.Forall2
import SexpEditing.Proofs.Expr.Parsing
import SexpEditing.Proofs.Token.Blanks

/-!
# Corresponding trees

The parser looks at the kinds of tokens, and at how marks quote; it never looks at the places of
tokens or at the text of atoms and strings. So if the significant lexemes of two texts correspond
one by one, in any way that keeps kinds and marks, their trees have the same shape and correspond as
well.

## Main definitions

* `Lexeme.Structural`: a correspondence of lexemes keeps what the parser looks at
* `Expr.Corresponds`: two trees have the same shape, and correspond lexeme by lexeme
* `Expr.TreesCorrespond`: two texts are read as such trees

## Main results

* `Parser.Corresponds.exists_step`, `Parser.Corresponds.exists_run`: one token, and all of them
* `Expr.Corresponds.tokens`: the tokens of corresponding trees
* `Expr.treesCorrespond_iff`: when the trees of two texts correspond
-/

namespace SexpEditing

open SexpEditing.Expr

/-- A correspondence of lexemes keeps what the parser looks at: the kinds, and how marks quote. -/
structure Lexeme.Structural (R : Lexeme → Lexeme → Prop) : Prop where
  kind_eq : ∀ {l m}, R l m → m.kind = l.kind
  style_eq : ∀ {l m}, R l m → l.kind = .mark →
    QuoteStyle.ofMark? m.text = QuoteStyle.ofMark? l.text

/-- Two tokens whose lexemes correspond, wherever they stand. -/
def Token.Corresponds (R : Lexeme → Lexeme → Prop) (t u : Token) : Prop :=
  R t.toLexeme u.toLexeme

theorem Lexeme.structural_eq : Structural (· = ·) := ⟨fun h => by rw [h], fun h _ => by rw [h]⟩

/-- Tokens correspond one by one in all but their places if their lexemes are the same. -/
theorem Token.forall₂_corresponds_eq_iff {ts us : List Token} :
    List.Forall₂ (Token.Corresponds (· = ·)) ts us ↔
      ts.map Token.toLexeme = us.map Token.toLexeme := by
  rw [← List.forall₂_eq_eq_eq, List.forall₂_map_left_iff, List.forall₂_map_right_iff]
  rfl

/-- Two trees of the same shape, whose lexemes correspond. -/
inductive Expr.Corresponds (R : Lexeme → Lexeme → Prop) : Expr → Expr → Prop
  | closed {o p c d : Token} {es fs : List Expr} (ho : o.Corresponds R p)
      (hi : List.Forall₂ (Corresponds R) es fs) (hc : c.Corresponds R d) :
      Corresponds R (.list o es (some c)) (.list p fs (some d))
  | unclosed {o p : Token} {es fs : List Expr} (ho : o.Corresponds R p)
      (hi : List.Forall₂ (Corresponds R) es fs) : Corresponds R (.list o es none) (.list p fs none)
  | quoted {style : QuoteStyle} {t u : Token} {e f : Expr} (hm : t.Corresponds R u)
      (h : Corresponds R e f) : Corresponds R (.quoted style t e) (.quoted style u f)
  | atom {t u : Token} (h : t.Corresponds R u) : Corresponds R (.atom t) (.atom u)
  | string {t u : Token} (h : t.Corresponds R u) : Corresponds R (.string t) (.string u)
  | stray {t u : Token} (h : t.Corresponds R u) : Corresponds R (.stray t) (.stray u)

variable {R : Lexeme → Lexeme → Prop}

namespace Expr

/-- Corresponding trees are complete alike. -/
theorem Corresponds.complete_eq : ∀ {e f : Expr}, e.Corresponds R f → f.complete = e.complete
  | .list _ _ (some _), _, .closed .. | .list _ _ none, _, .unclosed .. => rfl
  | .quoted _ _ _, _, .quoted _ h => by
    rw [complete, complete]
    exact h.complete_eq
  | .atom _, _, .atom _ | .string _, _, .string _ | .stray _, _, .stray _ => rfl

mutual

/-- Corresponding trees have corresponding tokens. -/
theorem Corresponds.tokens : ∀ {e f : Expr}, e.Corresponds R f →
    List.Forall₂ (Token.Corresponds R) e.tokens f.tokens
  | .list _ _ (some _), _, .closed ho hi hc =>
    .cons ho (List.rel_append (tokensOf_corresponds hi) (.cons hc .nil))
  | .list _ _ none, _, .unclosed ho hi =>
    .cons ho (List.rel_append (tokensOf_corresponds hi) .nil)
  | .quoted _ _ _, _, .quoted hm h => .cons hm h.tokens
  | .atom _, _, .atom h => .cons h .nil
  | .string _, _, .string h => .cons h .nil
  | .stray _, _, .stray h => .cons h .nil

theorem tokensOf_corresponds : ∀ {es fs : List Expr}, List.Forall₂ (Corresponds R) es fs →
    List.Forall₂ (Token.Corresponds R) (tokensOf es) (tokensOf fs)
  | [], _, .nil => .nil
  | _ :: _, _, .cons h hs => List.rel_append h.tokens (tokensOf_corresponds hs)

end

end Expr

namespace PartialList

/-- Two lists that were read as far, from corresponding tokens. -/
structure Corresponds (R : Lexeme → Lexeme → Prop) (l m : PartialList) : Prop where
  items : List.Forall₂ (Expr.Corresponds R) l.items m.items
  marks : List.Forall₂ (fun t u => t.kind = .mark ∧ t.Corresponds R u) l.marks m.marks

variable {l m : PartialList}

theorem Corresponds.empty : Corresponds R empty empty := ⟨.nil, .nil⟩

/-- Marks that quote alike wrap corresponding expressions alike. -/
theorem exists_wrap_of_corresponds (hR : Lexeme.Structural R) {ts us : List Token}
    (hm : List.Forall₂ (fun t u => t.kind = .mark ∧ t.Corresponds R u) ts us) {e f e' : Expr}
    (he : e.Corresponds R f) (hw : wrap ts e = .ok e') :
    ∃ f', wrap us f = .ok f' ∧ e'.Corresponds R f' := by
  induction hm generalizing e f with
  | nil =>
    cases hw
    exact ⟨f, rfl, he⟩
  | @cons t u ts us htu _ ih =>
    rw [wrap] at hw
    split at hw
    · next style hstyle =>
      obtain ⟨f', hf', hcorr⟩ := ih (.quoted htu.2 he) hw
      refine ⟨f', ?_, hcorr⟩
      rw [wrap, hR.style_eq htu.2 htu.1, hstyle]
      exact hf'
    · cases hw

theorem add_eq_ok_iff {e : Expr} {l' : PartialList} :
    l.add e = .ok l' ↔ ∃ f, wrap l.marks e = .ok f ∧ l' = ⟨f :: l.items, []⟩ := by
  rw [add]
  cases wrap l.marks e with
  | ok f => simp [bind, Except.bind, pure, Except.pure, eq_comm]
  | error x => simp [bind, Except.bind]

theorem Corresponds.exists_add (h : l.Corresponds R m) (hR : Lexeme.Structural R) {e f : Expr}
    (he : e.Corresponds R f) {l' : PartialList} (hl : l.add e = .ok l') :
    ∃ m', m.add f = .ok m' ∧ l'.Corresponds R m' := by
  obtain ⟨e', he', rfl⟩ := add_eq_ok_iff.mp hl
  obtain ⟨f', hf', hcorr⟩ := exists_wrap_of_corresponds hR h.marks he he'
  exact ⟨_, add_eq_ok_iff.mpr ⟨f', hf', rfl⟩, .cons hcorr h.items, .nil⟩

theorem Corresponds.addMark (h : l.Corresponds R m) {t u : Token} (hk : t.kind = .mark)
    (htu : t.Corresponds R u) : (l.addMark t).Corresponds R (m.addMark u) :=
  ⟨h.items, .cons ⟨hk, htu⟩ h.marks⟩

theorem Corresponds.dropMarks (h : l.Corresponds R m) :
    l.dropMarks.Corresponds R m.dropMarks := by
  have hstray : List.Forall₂ (Expr.Corresponds R) (l.marks.map Expr.stray)
      (m.marks.map Expr.stray) := by
    rw [List.forall₂_map_left_iff, List.forall₂_map_right_iff]
    exact h.marks.imp fun _ _ htu => .stray htu.2
  exact ⟨List.rel_append hstray h.items, .nil⟩

theorem Corresponds.contents (h : l.Corresponds R m) :
    List.Forall₂ (Expr.Corresponds R) l.contents m.contents :=
  List.rel_reverse h.dropMarks.items

end PartialList

namespace Parser

/-- Two open lists that were read as far. -/
structure OpenCorresponds (R : Lexeme → Lexeme → Prop) (x y : Token × PartialList) : Prop where
  opener : x.1.Corresponds R y.1
  list : x.2.Corresponds R y.2

/-- Two parsers that have read corresponding tokens. -/
structure Corresponds (R : Lexeme → Lexeme → Prop) (p q : Parser) : Prop where
  top : p.top.Corresponds R q.top
  lists : List.Forall₂ (OpenCorresponds R) p.lists q.lists

variable {p q : Parser}

theorem Corresponds.empty : Corresponds R empty empty := ⟨.empty, .nil⟩

theorem add_nil_eq_ok_iff {top : PartialList} {e : Expr} {p' : Parser} :
    Parser.add ⟨top, []⟩ e = .ok p' ↔ ∃ top', top.add e = .ok top' ∧ p' = ⟨top', []⟩ := by
  cases h : top.add e <;> simp [add, h, bind, Except.bind, pure, Except.pure, eq_comm]

theorem add_cons_eq_ok_iff {top l : PartialList} {opener : Token}
    {outer : List (Token × PartialList)} {e : Expr} {p' : Parser} :
    Parser.add ⟨top, (opener, l) :: outer⟩ e = .ok p' ↔
      ∃ l', l.add e = .ok l' ∧ p' = ⟨top, (opener, l') :: outer⟩ := by
  cases h : l.add e <;> simp [add, h, bind, Except.bind, pure, Except.pure, eq_comm]

theorem Corresponds.exists_add (h : p.Corresponds R q) (hR : Lexeme.Structural R) {e f : Expr}
    (he : e.Corresponds R f) {p' : Parser} (hp : p.add e = .ok p') :
    ∃ q', q.add f = .ok q' ∧ p'.Corresponds R q' := by
  obtain ⟨ptop, plists⟩ := p
  obtain ⟨qtop, qlists⟩ := q
  obtain ⟨htop, hlists⟩ := h
  cases hlists with
  | nil =>
    obtain ⟨top, hadd, rfl⟩ := add_nil_eq_ok_iff.mp hp
    obtain ⟨top', hadd', hcorr⟩ := PartialList.Corresponds.exists_add htop hR he hadd
    exact ⟨_, add_nil_eq_ok_iff.mpr ⟨top', hadd', rfl⟩, hcorr, .nil⟩
  | cons hopen houter =>
    obtain ⟨l, hadd, rfl⟩ := add_cons_eq_ok_iff.mp hp
    obtain ⟨l', hadd', hcorr⟩ := hopen.list.exists_add hR he hadd
    exact ⟨_, add_cons_eq_ok_iff.mpr ⟨l', hadd', rfl⟩, htop, .cons ⟨hopen.opener, hcorr⟩ houter⟩

theorem Corresponds.addMark (h : p.Corresponds R q) {t u : Token} (hk : t.kind = .mark)
    (htu : t.Corresponds R u) : (p.addMark t).Corresponds R (q.addMark u) := by
  obtain ⟨ptop, plists⟩ := p
  obtain ⟨qtop, qlists⟩ := q
  obtain ⟨htop, hlists⟩ := h
  cases hlists with
  | nil => exact ⟨PartialList.Corresponds.addMark htop hk htu, .nil⟩
  | cons hopen houter =>
    exact ⟨htop, .cons ⟨hopen.opener, hopen.list.addMark hk htu⟩ houter⟩

/-- **One token**: parsers that correspond read corresponding tokens alike. -/
theorem Corresponds.exists_step (h : p.Corresponds R q) (hR : Lexeme.Structural R) {t u : Token}
    (htu : t.Corresponds R u) {p' : Parser} (hp : p.step t = .ok p') :
    ∃ q', q.step u = .ok q' ∧ p'.Corresponds R q' := by
  rw [step] at hp ⊢
  rw [hR.kind_eq htu]
  generalize hk : t.kind = kind at hp ⊢
  cases kind with
  | space | comment =>
    cases hp
    exact ⟨q, rfl, h⟩
  | opener =>
    cases hp
    exact ⟨_, rfl, h.top, .cons ⟨htu, .empty⟩ h.lists⟩
  | closer =>
    obtain ⟨ptop, plists⟩ := p
    obtain ⟨qtop, qlists⟩ := q
    obtain ⟨htop, hlists⟩ := h
    cases hlists with
    | nil =>
      cases hp
      exact ⟨_, rfl, ⟨.cons (.stray htu) htop.dropMarks.items, .nil⟩, .nil⟩
    | @cons x y outer outer' hopen houter =>
      -- the innermost list goes to the level around it
      have hcorr : Corresponds R ⟨ptop, outer⟩ ⟨qtop, outer'⟩ := ⟨htop, houter⟩
      exact hcorr.exists_add hR (.closed hopen.opener hopen.list.contents htu) hp
  | mark =>
    cases hp
    exact ⟨_, rfl, h.addMark hk htu⟩
  | atom => exact h.exists_add hR (.atom htu) hp
  | string => exact h.exists_add hR (.string htu) hp

theorem run_cons_eq_ok_iff {t : Token} {ts : List Token} {r : Parser} :
    p.run (t :: ts) = .ok r ↔ ∃ q, p.step t = .ok q ∧ q.run ts = .ok r := by
  rw [run]
  cases h : p.step t <;> simp [bind, Except.bind]

/-- **All tokens**: parsers that correspond read corresponding lists of tokens alike. -/
theorem Corresponds.exists_run (h : p.Corresponds R q) (hR : Lexeme.Structural R)
    {ts us : List Token} (hts : List.Forall₂ (Token.Corresponds R) ts us) {p' : Parser}
    (hp : p.run ts = .ok p') : ∃ q', q.run us = .ok q' ∧ p'.Corresponds R q' := by
  induction hts generalizing p q with
  | nil =>
    cases hp
    exact ⟨q, rfl, h⟩
  | cons htu _ ih =>
    obtain ⟨p₁, hstep, hrun⟩ := run_cons_eq_ok_iff.mp hp
    obtain ⟨q₁, hstep', hcorr⟩ := h.exists_step hR htu hstep
    obtain ⟨q', hrun', hcorr'⟩ := ih hcorr hrun
    exact ⟨q', run_cons_eq_ok_iff.mpr ⟨q₁, hstep', hrun'⟩, hcorr'⟩

/-- White space and comments do not count. -/
theorem run_significant (p : Parser) (ts : List Token) :
    p.run (ts.filter fun t => !t.isTrivia) = p.run ts := by
  induction ts generalizing p with
  | nil => rfl
  | cons t ts ih =>
    cases ht : t.isTrivia with
    | true =>
      rw [List.filter_cons_of_neg (by simp [ht]), ih, run, step_of_isTrivia ht]
      rfl
    | false =>
      rw [List.filter_cons_of_pos (by simp [ht]), run, run]
      cases p.step t with
      | ok q => exact ih q
      | error x => rfl

theorem exists_closeAll_of_corresponds (hR : Lexeme.Structural R) {top top' : PartialList}
    (ht : top.Corresponds R top') {ls ms : List (Token × PartialList)}
    (hl : List.Forall₂ (OpenCorresponds R) ls ms) {l : PartialList}
    (hc : closeAll top ls = .ok l) : ∃ m, closeAll top' ms = .ok m ∧ l.Corresponds R m := by
  fun_induction closeAll top ls generalizing ms with
  | case1 =>
    cases hl
    cases hc
    exact ⟨top', by rw [closeAll], ht⟩
  | case2 opener inner =>
    cases hl with
    | cons hopen hnil =>
      cases hnil
      obtain ⟨m, hadd, hcorr⟩ := PartialList.Corresponds.exists_add ht hR
        (.unclosed hopen.opener hopen.list.contents) hc
      exact ⟨m, by rw [closeAll]; exact hadd, hcorr⟩
  | case3 opener inner outerOpener outer rest ih =>
    cases hl with
    | cons hopen hrest =>
      cases hrest with
      | @cons _ y _ ms houter hrest =>
        obtain ⟨opener', outer''⟩ := y
        cases hadd : outer.add (.list opener inner.contents none) with
        | error x =>
          rw [hadd] at hc
          cases hc
        | ok outer' =>
          rw [hadd] at hc
          -- the list goes to the one around it, which stays open
          obtain ⟨m', hadd', hcorr⟩ := houter.list.exists_add hR
            (.unclosed hopen.opener hopen.list.contents) hadd
          have hopen' : OpenCorresponds R (outerOpener, outer') (opener', m') :=
            ⟨houter.opener, hcorr⟩
          obtain ⟨m, hclose, hm⟩ := ih outer' (.cons hopen' hrest) hc
          refine ⟨m, ?_, hm⟩
          rw [closeAll, hadd']
          exact hclose

end Parser

namespace Expr

theorem parseMany_eq_ok_iff {ts : List Token} {es : List Expr} :
    parseMany ts = .ok es ↔ ∃ p l, Parser.empty.run ts = .ok p ∧
      Parser.closeAll p.top p.lists = .ok l ∧ l.contents = es := by
  rw [parseMany]
  cases hrun : Parser.empty.run ts with
  | error x => simp [bind, Except.bind]
  | ok p =>
    cases hclose : Parser.closeAll p.top p.lists <;>
      simp [Parser.finish, hclose, bind, Except.bind, pure, Except.pure]

/-- Corresponding tokens make corresponding trees. -/
theorem exists_parseMany_of_corresponds (hR : Lexeme.Structural R) {ts us : List Token}
    (h : List.Forall₂ (Token.Corresponds R) ts us) {es : List Expr}
    (he : parseMany ts = .ok es) :
    ∃ fs, parseMany us = .ok fs ∧ List.Forall₂ (Corresponds R) es fs := by
  obtain ⟨p, l, hrun, hclose, rfl⟩ := parseMany_eq_ok_iff.mp he
  obtain ⟨q, hrun', hpq⟩ := Parser.Corresponds.empty.exists_run hR h hrun
  obtain ⟨m, hclose', hlm⟩ :=
    Parser.exists_closeAll_of_corresponds hR hpq.top hpq.lists hclose
  exact ⟨m.contents, parseMany_eq_ok_iff.mpr ⟨q, m, hrun', hclose', rfl⟩, hlm.contents⟩

/-- The trees of a text are those of its significant tokens. -/
theorem parseMany_significantTokens (t : Text) : parseMany (significantTokens t) = ofText t := by
  rw [ofText, parseMany, parseMany, significantTokens, Parser.run_significant]

/-- The significant tokens of two texts correspond exactly if their lexemes do. -/
theorem forall₂_significantTokens {s t : Text} :
    List.Forall₂ (Token.Corresponds R) (significantTokens s) (significantTokens t) ↔
      List.Forall₂ R (Lexeme.significant (lexemes s)) (Lexeme.significant (lexemes t)) := by
  rw [← map_toLexeme_significantTokens, ← map_toLexeme_significantTokens,
    List.forall₂_map_left_iff, List.forall₂_map_right_iff]
  rfl

/-- **A complete expression is read again** from tokens that have the same lexemes. -/
theorem exists_whole_of_map_toLexeme {t : Text} {e : Expr} (he : ofText t = .ok [e])
    (hc : e.complete = true) {ts : List Token}
    (hts : ts.map Token.toLexeme = Lexeme.significant (lexemes t)) :
    ∃ f : Expr, f.tokens = ts ∧ f.Whole ∧ e.Corresponds (· = ·) f := by
  rw [← map_toLexeme_significantTokens] at hts
  rw [← parseMany_significantTokens] at he
  obtain ⟨_, hfs, hes⟩ := exists_parseMany_of_corresponds Lexeme.structural_eq
    (Token.forall₂_corresponds_eq_iff.mpr hts.symm) he
  obtain ⟨f, _, hf, hnil, rfl⟩ := List.forall₂_cons_left_iff.mp hes
  cases hnil
  -- each token is one of the text, but for its place
  have hmem : ∀ u ∈ ts, u.isTrivia = false ∧ (u.kind = .mark → u.Quotes) := by
    rintro ⟨l, place⟩ hu
    obtain ⟨⟨_, _⟩, hv, rfl⟩ := List.mem_map.mp (hts ▸ List.mem_map_of_mem hu)
    obtain ⟨hv, htrivia⟩ := List.mem_filter.mp hv
    exact ⟨by simpa [Token.isTrivia] using htrivia,
      fun hk => ⟨hk, (quotes_of_mem_tokenize hv hk).2⟩⟩
  obtain ⟨_, hfs', htokens, hparsed⟩ := exists_parseMany fun u hu => (hmem u hu).2
  obtain rfl := Except.ok.inj (hfs.symm.trans hfs')
  refine ⟨f, ?_, ?_, hf⟩
  · rw [tokensOf_cons, tokensOf_nil, List.append_nil] at htokens
    rw [htokens, List.filter_eq_self]
    intro u hu
    rw [(hmem u hu).1, Bool.not_false]
  · exact (hparsed.built f (List.mem_singleton_self f)).whole (hf.complete_eq.trans hc)

/-- Two texts are read as trees that correspond. -/
def TreesCorrespond (R : Lexeme → Lexeme → Prop) (s t : Text) : Prop :=
  ∃ es fs, ofText s = .ok es ∧ ofText t = .ok fs ∧ List.Forall₂ (Corresponds R) es fs

variable {s t : Text}

/-- If the trees of two texts correspond, their significant lexemes do. -/
theorem TreesCorrespond.significant (h : TreesCorrespond R s t) :
    List.Forall₂ R (Lexeme.significant (lexemes s)) (Lexeme.significant (lexemes t)) := by
  obtain ⟨es, fs, hs, ht, hcorr⟩ := h
  obtain ⟨es', hes', htokens, -⟩ := exists_ofText s
  obtain ⟨fs', hfs', htokens', -⟩ := exists_ofText t
  obtain rfl : es' = es := Except.ok.inj (hes'.symm.trans hs)
  obtain rfl : fs' = fs := Except.ok.inj (hfs'.symm.trans ht)
  rw [← forall₂_significantTokens, ← htokens, ← htokens']
  exact tokensOf_corresponds hcorr

/-- **The trees of two texts correspond** exactly if their significant lexemes do. -/
theorem treesCorrespond_iff (hR : Lexeme.Structural R) :
    TreesCorrespond R s t ↔
      List.Forall₂ R (Lexeme.significant (lexemes s)) (Lexeme.significant (lexemes t)) := by
  constructor
  · exact TreesCorrespond.significant
  · intro h
    rw [← forall₂_significantTokens] at h
    obtain ⟨es, hes, -⟩ := exists_ofText s
    have hes' := hes
    rw [← parseMany_significantTokens] at hes'
    obtain ⟨fs, hfs, hcorr⟩ := exists_parseMany_of_corresponds hR h hes'
    rw [parseMany_significantTokens] at hfs
    exact ⟨es, fs, hes, hfs, hcorr⟩

end Expr

end SexpEditing
