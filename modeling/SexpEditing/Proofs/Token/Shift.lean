import SexpEditing.Proofs.Token.LineStart

/-!
# Where the tokens of a line lie

A line that starts outside strings and comments begins a text of its own: the significant tokens
from its first unit on are those of that text, moved to where the line stands. Blanks in front move
them further, and do nothing else.

## Main definitions

* `significantFrom`: the significant tokens of a text that stands at an offset
* `Token.shift`: a token moved to another place

## Main results

* `significantFrom_append`: what white space in front does
* `significantTokens_append`, `significantTokens_append_of_endsLine`: the tokens above a line and from
  the line on
* `significantFrom_replicate`: closing delimiters at the front are tokens
-/

namespace SexpEditing

open CodeUnit Token

/-- The significant tokens of a text that stands at an offset. -/
def significantFrom (offset : Int) (t : Text) : List Token :=
  (Lexeme.layOut offset (lexemes t)).filter fun u => !u.isTrivia

theorem significantFrom_zero (t : Text) : significantFrom 0 t = significantTokens t := rfl

/-- A token moved by a distance. -/
def Token.shift (distance : Int) (t : Token) : Token :=
  ⟨t.toLexeme, ⟨t.start + distance, t.stop + distance⟩⟩

@[simp] theorem Token.shift_start (distance : Int) (t : Token) :
    (t.shift distance).start = t.start + distance := rfl

@[simp] theorem Token.shift_toLexeme (distance : Int) (t : Token) :
    (t.shift distance).toLexeme = t.toLexeme := rfl

theorem layOut_add (offset distance : Int) (ls : List Lexeme) :
    Lexeme.layOut (offset + distance) ls =
      (Lexeme.layOut offset ls).map (Token.shift distance) := by
  induction ls generalizing offset with
  | nil => rfl
  | cons l ls ih =>
    have hnext : offset + distance + (l.text.length : Int) =
        offset + l.text.length + distance := by omega
    rw [Lexeme.layOut_cons, Lexeme.layOut_cons, List.map_cons, hnext, ih]
    rfl

theorem significantFrom_add (offset distance : Int) (t : Text) :
    significantFrom (offset + distance) t =
      (significantFrom offset t).map (Token.shift distance) := by
  rw [significantFrom, layOut_add, List.filter_map]
  rfl

theorem le_start_of_mem_significantFrom {offset : Int} {t : Text} {u : Token}
    (h : u ∈ significantFrom offset t) : offset ≤ u.start :=
  le_start_of_mem_layOut (List.mem_filter.mp h).1

theorem significantFrom_nil (offset : Int) : significantFrom offset [] = [] := by
  rw [significantFrom, lexemes_of_none rfl]
  rfl

/-- A lexeme that carries no structure is passed over. -/
theorem significantFrom_of_trivia {offset : Int} {t after : Text} {l : Lexeme}
    (hn : nextLexeme t = some (l, after)) (hl : l.kind.isTrivia = true) :
    significantFrom offset t = significantFrom (offset + l.text.length) after := by
  rw [significantFrom, lexemes_of_some hn, Lexeme.layOut_cons, List.filter_cons_of_neg]
  · rfl
  · simp [Token.isTrivia, hl]

/-- **White space in front** of a text moves its significant tokens. -/
theorem significantFrom_append {w : Text} (hw : w.all isSpace) (offset : Int) (x : Text) :
    significantFrom (offset + w.length) x = significantFrom offset (w ++ x) := by
  have hsplit := congrArg List.length (List.takeWhile_append_dropWhile (p := isSpace) (l := x))
  rw [List.length_append] at hsplit
  -- both begin behind the white space at the front
  have hdrop {w : Text} (hw : w.all isSpace) (offset : Int) :
      significantFrom offset (w ++ x) =
        significantFrom (offset + w.length + (x.takeWhile isSpace).length)
          (x.dropWhile isSpace) := by
    by_cases hne : w = []
    · subst hne
      cases x with
      | nil => rw [significantFrom]; simp [significantFrom]
      | cons c rest =>
        by_cases hc : c.isSpace
        · rw [List.nil_append, significantFrom_of_trivia (nextLexeme_space hc rest) rfl,
            List.dropWhile_cons_of_pos hc, List.takeWhile_cons_of_pos hc]
          simp
        · rw [List.dropWhile_cons_of_neg hc, List.takeWhile_cons_of_neg hc]
          simp
    · rw [significantFrom_of_trivia (nextLexeme_spaces hw hne x) rfl, List.length_append,
        Int.natCast_add, Int.add_assoc]
  have h₀ := hdrop (w := []) rfl (offset + w.length)
  rw [List.nil_append, List.length_nil, Int.natCast_zero, Int.add_zero] at h₀
  rw [hdrop hw, h₀]

theorem significantFrom_of_all_isSpace {w : Text} (hw : w.all isSpace) (offset : Int) :
    significantFrom offset w = [] := by
  have hw := significantFrom_append hw offset []
  rwa [significantFrom_nil, List.append_nil, eq_comm] at hw

/-- An atom in front of a text that it cannot go on with. -/
theorem AtomSoFar.significantFrom_append {t : Text} (h : AtomSoFar t) {b : Text}
    (hb : b.all isSpace) {x : Text} (hx : (atomTail x).1 = []) (offset : Int) :
    significantFrom offset (t ++ (b ++ x)) = ⟨⟨.atom, t⟩, ⟨offset, offset + t.length⟩⟩ ::
      significantFrom (offset + t.length + b.length) x := by
  rw [significantFrom, lexemes_of_some (h.nextLexeme_of_ends hb (.inr hx)), Lexeme.layOut_cons,
    List.filter_cons_of_pos rfl, SexpEditing.significantFrom_append hb]
  rfl

/-- What is read of a text does not depend on what follows. -/
theorem exists_significantTokens_append (a : Text) :
    ∃ (front : List Token) (n : Nat), n + (pending a).length = a.length ∧
      ∀ y, significantTokens (a ++ y) = front ++ significantFrom n (pending a ++ y) := by
  obtain ⟨ls, hls⟩ := exists_reads_pending a
  refine ⟨(Lexeme.layOut 0 ls).filter fun u => !u.isTrivia, _, length_eq_of_reads hls, fun y => ?_⟩
  rw [significantTokens, tokenize_of_lexemes (hls.append_right y).lexemes_eq, List.filter_append]
  rfl

/-- **The tokens above a line, and from the line on**, where the text above leaves nothing but white
space pending. -/
theorem significantTokens_append {a : Text} (hp : (pending a).all isSpace) {b : Text}
    (hb : b.all isSpace) (x : Text) :
    significantTokens (a ++ (b ++ x)) =
      significantTokens a ++ significantFrom (a.length + b.length) x := by
  obtain ⟨front, n, hn, hsplit⟩ := exists_significantTokens_append a
  have hw : (pending a ++ b).all isSpace := by
    rw [List.all_append, hp, hb]
    rfl
  have hnil := hsplit []
  rw [List.append_nil, List.append_nil, significantFrom_of_all_isSpace hp, List.append_nil] at hnil
  rw [hsplit, hnil, ← List.append_assoc (pending a), ← significantFrom_append hw]
  congr 2
  simp only [List.length_append]
  omega

/-- The tokens above a line, and from the line on, where an atom may be pending but cannot go on. -/
theorem significantTokens_append_of_endsLine {a : Text} (ha : EndsLine a)
    (hp : ¬ Unfinished (pending a)) {b : Text} (hb : b.all isSpace) {x : Text}
    (hx : AtomSoFar (pending a) → (atomTail x).1 = []) :
    significantTokens (a ++ (b ++ x)) =
      significantTokens a ++ significantFrom (a.length + b.length) x := by
  rcases pending_cases ha with hspace | hatom | hun
  · exact significantTokens_append hspace hb x
  · -- the atom is the last token above the line
    obtain ⟨front, n, hn, hsplit⟩ := exists_significantTokens_append a
    have hnil := hsplit []
    have hlast := hatom.significantFrom_append (b := []) rfl (congrArg Prod.fst atomTail_nil) n
    rw [List.append_nil, List.append_nil] at hnil hlast
    rw [hlast, significantFrom_nil] at hnil
    rw [hsplit, hatom.significantFrom_append hb (hx hatom), hnil, List.append_assoc,
      ← Int.natCast_add, hn]
    rfl
  · exact absurd hun hp

/-- **Closing delimiters at the front** of a text are tokens, one behind the other. -/
theorem significantFrom_replicate (offset : Int) (n : Nat) (t : Text) :
    significantFrom offset (List.replicate n rightParen ++ t) =
      ((List.range n).map fun i : Nat =>
        ⟨⟨.closer, [rightParen]⟩, ⟨offset + i, offset + i + 1⟩⟩) ++
          significantFrom (offset + n) t := by
  induction n generalizing t with
  | zero => simp
  | succ n ih =>
    have hnext : nextLexeme (rightParen :: t) = some (⟨.closer, [rightParen]⟩, t) := rfl
    have hlast : significantFrom (offset + n) (rightParen :: t) =
        ⟨⟨.closer, [rightParen]⟩, ⟨offset + n, offset + n + 1⟩⟩ ::
          significantFrom (offset + (n + 1 : Nat)) t := by
      rw [significantFrom, lexemes_of_some hnext, Lexeme.layOut_cons, List.filter_cons_of_pos rfl,
        Int.natCast_add, ← Int.add_assoc]
      rfl
    rw [List.replicate_succ', List.append_assoc, List.singleton_append, ih, hlast, List.range_succ,
      List.map_append, List.append_assoc]
    rfl

/-- The significant tokens above a line end before the line feed. -/
theorem stop_lt_of_mem_significantTokens {a : Text} (ha : EndsLine a)
    (hp : (pending a).all isSpace) {u : Token} (hu : u ∈ significantTokens a) :
    u.stop < a.length := by
  obtain ⟨ls, hls⟩ := exists_reads_pending a
  have hlen := length_eq_of_reads hls
  have hne : a ≠ [] := by
    rintro rfl
    rw [← significantFrom_zero, significantFrom_nil] at hu
    cases hu
  have hpos := List.length_pos_iff.mpr (pending_ne_nil hne)
  rw [significantTokens, tokenize_of_lexemes hls.lexemes_eq, List.filter_append,
    List.mem_append] at hu
  rcases hu with hu | hu
  · have := stop_le_of_mem_layOut (List.mem_filter.mp hu).1
    omega
  · change u ∈ significantFrom _ (pending a) at hu
    rw [significantFrom_of_all_isSpace hp] at hu
    cases hu

end SexpEditing
