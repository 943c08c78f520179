import SexpEditing.Indent.Indenter
import SexpEditing.Proofs.Token.Unfinished

/-!
# Tokens across the start of a line

Which token of a text crosses the start of one of its lines can be told from what the text above the
line leaves pending: a string or a comment if that is unfinished, an atom if the line feed belongs
to one, and white space otherwise.

## Main results

* `insideText_iff`: a line starts inside a string or a comment if the text above leaves one pending
* `exists_atom_across_iff`: an atom crosses the start of a line if the text above leaves it pending
-/

namespace SexpEditing

open CodeUnit Token

/-! ### Places -/

theorem layOut_append (start : Int) (ls ms : List Lexeme) :
    Lexeme.layOut start (ls ++ ms) = Lexeme.layOut start ls ++
      Lexeme.layOut (start + (ls.flatMap fun l => l.text).length) ms := by
  induction ls generalizing start with
  | nil => simp
  | cons l ls ih =>
    rw [List.cons_append, Lexeme.layOut_cons, ih, Lexeme.layOut_cons, List.flatMap_cons,
      List.length_append, Int.natCast_add, Int.add_assoc]
    rfl

theorem stop_le_of_mem_layOut {start : Int} {ls : List Lexeme} {t : Token}
    (ht : t ∈ Lexeme.layOut start ls) :
    t.stop ≤ start + (ls.flatMap fun l => l.text).length := by
  obtain ⟨ls₁, ls₂, rfl, hstart, hstop⟩ := exists_around_of_mem_layOut ht
  rw [hstop, hstart]
  simp only [List.flatMap_append, List.flatMap_cons, List.length_append]
  omega

theorem mem_of_mem_layOut {start : Int} {ls : List Lexeme} {t : Token}
    (ht : t ∈ Lexeme.layOut start ls) : t.toLexeme ∈ ls := by
  obtain ⟨ls₁, ls₂, rfl, -, -⟩ := exists_around_of_mem_layOut ht
  simp

/-- The last token ends where all lexemes do. -/
theorem getLast?_layOut (start : Int) (ls : List Lexeme) :
    ((Lexeme.layOut start ls).getLast?.map Token.stop).getD start =
      start + (ls.flatMap fun l => l.text).length := by
  rcases List.eq_nil_or_concat ls with rfl | ⟨init, l, rfl⟩
  · simp
  · rw [List.concat_eq_append, layOut_append, Lexeme.layOut_cons, Lexeme.layOut_nil,
      List.getLast?_concat]
    simp [Token.stop, Int.add_assoc]

/-- The tokens of a text that some lexemes begin. -/
theorem tokenize_of_lexemes {t : Text} {ls ms : List Lexeme} (h : lexemes t = ls ++ ms) :
    tokenize t = Lexeme.layOut 0 ls ++
      Lexeme.layOut (ls.flatMap fun l => l.text).length ms := by
  rw [tokenize, h, layOut_append, Int.zero_add]

/-! ### Inside strings and comments -/

/-- A backward search finds the token that holds a position, if it starts before that. -/
theorem scan_backward_any {t : Text} {position : Int} {p : Token → Bool} :
    (((TokenIndex.ofText t).scan position .backward true).any
        fun u => p u && decide (position < u.stop)) = true ↔
      ∃ u ∈ tokenize t, p u = true ∧ u.start < position ∧ position < u.stop := by
  have h := ordered_tokenize t
  have hscan : (TokenIndex.ofText t).scan position .backward true =
      (previousIndex (countBefore (tokenize t) position)).bind fun i => (tokenize t)[i]? :=
    TokenIndex.scan_backward_eq t position true
  rw [hscan]
  have hn : countBefore (tokenize t) position ≤ (tokenize t).length := List.countP_le_length
  constructor
  · intro hany
    cases hc : countBefore (tokenize t) position with
    | zero =>
      rw [hc] at hany
      cases hany
    | succ i =>
      have hi : i < (tokenize t).length := by omega
      have hlt := (h.lt_countBefore_iff hi position).mp (by omega)
      rw [hc, previousIndex, Option.bind_some, List.getElem?_eq_getElem hi, Option.any_some,
        Bool.and_eq_true, decide_eq_true_eq] at hany
      exact ⟨_, List.getElem_mem hi, hany.1, hlt, hany.2⟩
  · rintro ⟨u, hu, hp, hstart, hstop⟩
    obtain ⟨j, hj, rfl⟩ := List.getElem_of_mem hu
    rw [h.countBefore_within hj hstart (Int.le_of_lt hstop), previousIndex, Option.bind_some,
      List.getElem?_eq_getElem hj, Option.any_some, hp, Bool.true_and, decide_eq_true_eq]
    exact hstop

/-- Outside strings and comments, white space and atoms reach to the first unit that is no
blank. -/
theorem exists_lexemes_front {p : Text} (hp : p.all isSpace ∨ AtomSoFar p) {b : Text}
    (hb : b.all isSpace) (x : Text) :
    ∃ front rest, lexemes (p ++ (b ++ x)) = front ++ rest ∧
      (∀ l ∈ front, l.kind = .space ∨ l.kind = .atom) ∧
      p.length + b.length ≤ (front.flatMap fun l => l.text).length := by
  rcases hp with hp | hp
  · by_cases hne : p ++ b = []
    · obtain ⟨rfl, rfl⟩ := List.append_eq_nil_iff.mp hne
      exact ⟨[], _, rfl, by simp, by simp⟩
    · have hw : (p ++ b).all isSpace := by
        rw [List.all_append, hp, hb]
        rfl
      rw [← List.append_assoc, lexemes_of_some (nextLexeme_spaces hw hne x)]
      refine ⟨[_], _, rfl, by simp, ?_⟩
      simp only [List.flatMap_cons, List.flatMap_nil, List.append_nil, List.length_append]
      omega
  · -- without blanks the atom may go on into the line
    by_cases hne : b = []
    · subst hne
      rw [List.nil_append, lexemes_of_some (hp.nextLexeme_append x)]
      refine ⟨[_], _, rfl, by simp, ?_⟩
      simp only [List.flatMap_cons, List.flatMap_nil, List.append_nil, List.length_append,
        List.length_nil]
      omega
    · rw [lexemes_of_some (hp.nextLexeme_append_spaces hb hne x),
        lexemes_of_some (nextLexeme_spaces hb hne x)]
      refine ⟨[_, _], _, rfl, by simp, ?_⟩
      simp only [List.flatMap_cons, List.flatMap_nil, List.append_nil, List.length_append]
      omega

theorem length_eq_of_reads {t rest : Text} {ls : List Lexeme} (h : Reads t ls rest) :
    (ls.flatMap fun l => l.text).length + rest.length = t.length := by
  rw [← h.flatMap_append, List.length_append]

theorem isPlain_of_isSpace {c : CodeUnit} (hc : c.isSpace) : c.isPlain := by
  simp only [isPlain, Bool.and_eq_true, bne_iff_ne, ne_eq]
  refine ⟨⟨⟨?_, ?_⟩, ?_⟩, ?_⟩
  all_goals
    rintro rfl
    cases hc

theorem all_isPlain_of_all_isSpace {b : Text} (hb : b.all isSpace) : b.all isPlain := by
  rw [List.all_eq_true] at hb ⊢
  exact fun c hc => isPlain_of_isSpace (hb c hc)

/-- A string or a block comment that the text above a line leaves pending takes along plain units.
It is a token that holds them, or it has no end, and then the tokens end above the line. -/
theorem Unfinished.exists_token_or {a : Text} (hp : Unfinished (pending a)) (ha : EndsLine a)
    {x : Text} (hx : x.all isPlain) (y : Text) :
    (∃ t ∈ tokenize (a ++ (x ++ y)), (t.kind = .string ∨ t.kind = .comment) ∧
        t.start < a.length ∧ (a.length : Int) + x.length < t.stop) ∨
      ((lexemes (a ++ (x ++ y))).flatMap fun l => l.text).length < a.length := by
  obtain ⟨ls, hls⟩ := exists_reads_pending a
  have hlen := length_eq_of_reads hls
  have hlex := (hls.append_right (x ++ y)).lexemes_eq
  obtain ⟨kind, tail, htail, hnext⟩ := hp.exists_tail ha.pending
  have hpos := List.length_pos_iff.mpr hp.2
  have hn := hnext (x ++ y)
  rw [htail.append hx y] at hn
  cases hy : tail y with
  | none =>
    rw [hy] at hn
    rw [hlex, lexemes_of_none hn, List.append_nil]
    omega
  | some split =>
    rw [hy] at hn
    have hsplit := List.length_pos_iff.mpr (htail.ne_nil hy)
    refine .inl ⟨⟨⟨kind, pending a ++ (x ++ split.1)⟩,
      ⟨(ls.flatMap fun l => l.text).length, (ls.flatMap fun l => l.text).length +
        (pending a ++ (x ++ split.1)).length⟩⟩, ?_, htail.kind_eq, ?_, ?_⟩
    · rw [tokenize_of_lexemes hlex, lexemes_of_some hn]
      exact List.mem_append_right _ (List.mem_cons_self ..)
    · simp only [Token.start]
      omega
    · simp only [Token.stop, List.length_append]
      omega

/-- **A line starts inside a string or a comment** if the text above leaves one pending. -/
theorem insideText_iff {a b x : Text} (ha : EndsLine a) (hb : b.all isSpace) :
    (TokenIndex.ofText (a ++ (b ++ x))).insideText (a.length + b.length)
        (a ++ (b ++ x)).length = true ↔ Unfinished (pending a) := by
  obtain ⟨ls, hls⟩ := exists_reads_pending a
  have hlen := length_eq_of_reads hls
  have hlex := (hls.append_right (b ++ x)).lexemes_eq
  have hcovered : ((TokenIndex.ofText (a ++ (b ++ x))).tokens.back?.map Token.stop).getD 0 =
      ((lexemes (a ++ (b ++ x))).flatMap fun l => l.text).length := by
    have hlast := getLast?_layOut 0 (lexemes (a ++ (b ++ x)))
    rw [Int.zero_add] at hlast
    rw [← hlast]
    simp [TokenIndex.ofText, TokenIndex.ofTokens, tokenize]
  rw [TokenIndex.insideText, Bool.or_eq_true, scan_backward_any, hcovered, decide_eq_true_eq]
  constructor
  · intro hin
    have hloose : (pending a).all isSpace ∨ AtomSoFar (pending a) ∨ Unfinished (pending a) :=
      pending_cases ha
    rw [← or_assoc] at hloose
    apply hloose.resolve_left
    intro hp
    obtain ⟨front, rest, hfront, hkinds, hreach⟩ := exists_lexemes_front hp hb x
    rw [hfront] at hlex
    rcases hin with ⟨t, ht, hkind, hstart, hstop⟩ | ⟨-, hshort⟩
    · -- the token is none above the line, none in front, and none further on
      rw [tokenize_of_lexemes hlex, layOut_append, List.mem_append, List.mem_append] at ht
      rcases ht with ht | ht | ht
      · have := stop_le_of_mem_layOut ht
        omega
      · have hmem := hkinds _ (mem_of_mem_layOut ht)
        rcases hmem with hmem | hmem <;> simp [hmem] at hkind
      · have := le_start_of_mem_layOut ht
        omega
    · rw [hlex] at hshort
      simp only [List.flatMap_append, List.length_append] at hshort
      omega
  · intro hp
    rcases hp.exists_token_or ha (all_isPlain_of_all_isSpace hb) x with
      ⟨t, ht, hkind, hstart, hstop⟩ | hshort
    · refine .inl ⟨t, ht, ?_, by omega, hstop⟩
      rcases hkind with hkind | hkind <;> simp [hkind]
    · refine .inr ⟨?_, by omega⟩
      simp only [List.length_append]
      omega

/-- An atom that the text above a line leaves pending crosses the start of the line, and holds the
line feed. -/
theorem AtomSoFar.exists_atom {a : Text} (hp : AtomSoFar (pending a)) (x : Text) :
    ∃ t ∈ tokenize (a ++ x), t.kind = .atom ∧ lineFeed ∈ t.text ∧
      t.start < a.length ∧ (a.length : Int) ≤ t.stop := by
  obtain ⟨ls, hls⟩ := exists_reads_pending a
  have hlen := length_eq_of_reads hls
  have htokens := tokenize_of_lexemes (hls.append_right x).lexemes_eq
  have hpos := List.length_pos_iff.mpr hp.ne_nil
  refine ⟨⟨⟨.atom, pending a ++ (atomTail x).1⟩, ⟨(ls.flatMap fun l => l.text).length,
    (ls.flatMap fun l => l.text).length + (pending a ++ (atomTail x).1).length⟩⟩,
    ?_, rfl, ?_, ?_, ?_⟩
  · rw [htokens, lexemes_of_some (hp.nextLexeme_append x)]
    exact List.mem_append_right _ (List.mem_cons_self ..)
  · exact List.mem_append_left _ (List.mem_of_getLast? hp.2)
  · simp only [Token.start]
    omega
  · simp only [Token.stop, List.length_append]
    omega

/-- **An atom crosses the start of a line** if the text above leaves one pending. -/
theorem exists_atom_across_iff {a : Text} (ha : EndsLine a) (x : Text) :
    (∃ t ∈ tokenize (a ++ x), t.kind = .atom ∧ t.start < a.length ∧ (a.length : Int) ≤ t.stop) ↔
      AtomSoFar (pending a) := by
  constructor
  · rintro ⟨t, ht, hkind, hstart, hstop⟩
    obtain ⟨ls, hls⟩ := exists_reads_pending a
    have hlen := length_eq_of_reads hls
    have htokens := tokenize_of_lexemes (hls.append_right x).lexemes_eq
    have hne : a ≠ [] := by
      rintro rfl
      obtain ⟨before, -, -, hbefore, -⟩ := exists_around_of_mem_tokenize ht
      rw [List.length_nil] at hstart
      omega
    have hpos := List.length_pos_iff.mpr (pending_ne_nil hne)
    -- the token is the one that begins with what is pending
    have hfirst {l : Lexeme} {after : Text} (hn : nextLexeme (pending a ++ x) = some (l, after))
        (hle : (pending a).length ≤ l.text.length) : l.kind = .atom := by
      rw [htokens, lexemes_of_some hn, Lexeme.layOut_cons, List.mem_append, List.mem_cons] at ht
      rcases ht with ht | rfl | ht
      · have := stop_le_of_mem_layOut ht
        omega
      · exact hkind
      · have := le_start_of_mem_layOut ht
        omega
    -- neither white space nor a string nor a comment is an atom
    rcases pending_cases ha with hp | hp | hp
    · have := hfirst (nextLexeme_spaces hp (pending_ne_nil hne) x)
        (by simp only [List.length_append]; omega)
      cases this
    · exact hp
    · obtain ⟨kind, tail, htail, hnext⟩ := hp.exists_tail ha.pending
      cases hx : tail x with
      | none =>
        have hn := hnext x
        rw [hx] at hn
        rw [htokens, lexemes_of_none hn, Lexeme.layOut_nil, List.append_nil] at ht
        have := stop_le_of_mem_layOut ht
        omega
      | some split =>
        have hn := hnext x
        rw [hx] at hn
        have hatom := hfirst hn (by simp only [List.length_append]; omega)
        rcases htail.kind_eq with rfl | rfl <;> cases hatom
  · intro hp
    obtain ⟨t, ht, hkind, -, hacross⟩ := hp.exists_atom x
    exact ⟨t, ht, hkind, hacross⟩

end SexpEditing
