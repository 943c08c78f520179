import SexpEditing.Proofs.Evaluator.Breaks
import SexpEditing.Proofs.Token.Blanks
import SexpEditing.Proofs.Token.Coverage

/-!
# Code on one line

Collapsed code is split into the same lexemes as the code, without their line breaks. Of the white
space and the comments of the code one blank is left where some stood between two lexemes that carry
structure, so collapsing once more changes nothing.

## Main definitions

* `Statement.joinedLexemes`: the lexemes of collapsed code
* `triviaRuns`: the white space and the comments of a text, by where they stand

## Main results

* `Statement.lexemes_join`: how collapsed code is split
* `Statement.collapse_keeps_lexemes`: when code can be collapsed, and what is kept of it
-/

namespace SexpEditing

open CodeUnit

namespace Lexeme

/-- A blank may take the place of the white space or the comment behind a lexeme. -/
theorem Adjoins.blank {l m : Lexeme} (h : l.Adjoins m) (hl : l.kind.isTrivia = false) :
    l.escapeBreaks.Adjoins Lexeme.blank :=
  adjoins_blank (by rwa [escapeBreaks_kind]) (l.steady_escapeBreaks_iff.mpr h.steady)

end Lexeme

/-- The white space and the comments among some lexemes: those before the first lexeme that carries
structure, those between each two, and those after the last one. -/
def triviaRuns (ls : List Lexeme) : List (List Lexeme) := ls.splitOnP fun l => !l.kind.isTrivia

theorem triviaRuns_cons_of_isTrivia {l : Lexeme} (hl : l.kind.isTrivia = true)
    (ls : List Lexeme) : triviaRuns (l :: ls) = (triviaRuns ls).modifyHead (l :: ·) := by
  simp [triviaRuns, List.splitOnP_cons_eq_if_modifyHead, hl]

theorem triviaRuns_cons {l : Lexeme} (hl : l.kind.isTrivia = false) (ls : List Lexeme) :
    triviaRuns (l :: ls) = [] :: triviaRuns ls := by
  simp [triviaRuns, List.splitOnP_cons_eq_if_modifyHead, hl]

namespace Statement

/-- The lexemes of code on one line. The two flags are those of `join`. -/
def joinedLexemes (first gap : Bool) : List Lexeme → List Lexeme
  | [] => []
  | l :: rest =>
    if l.kind.isTrivia then joinedLexemes first true rest
    else (if gap && !first then [Lexeme.blank] else []) ++
      l.escapeBreaks :: joinedLexemes false false rest

variable {first gap : Bool} {l : Lexeme} {ls : List Lexeme}

theorem joinedLexemes_of_isTrivia (hl : l.kind.isTrivia = true) :
    joinedLexemes first gap (l :: ls) = joinedLexemes first true ls := by
  rw [joinedLexemes, if_pos hl]

theorem joinedLexemes_cons (hl : l.kind.isTrivia = false) :
    joinedLexemes first gap (l :: ls) = (if gap && !first then [Lexeme.blank] else []) ++
      l.escapeBreaks :: joinedLexemes false false ls := by
  rw [joinedLexemes, if_neg (by simp [hl])]

/-- Code on one line is made up of these lexemes. -/
theorem join_eq (first gap : Bool) (ls : List Lexeme) :
    join first gap ls = (joinedLexemes first gap ls).flatMap fun l => l.text := by
  induction ls generalizing first gap with
  | nil => rfl
  | cons l ls ih =>
    cases hl : l.kind.isTrivia with
    | true => rw [joinedLexemes_of_isTrivia hl, join, if_pos hl, ih]
    | false =>
      rw [joinedLexemes_cons hl, join, if_neg (by simp [hl]), ih, List.flatMap_append,
        List.flatMap_cons, List.append_assoc]
      cases gap && !first <;> rfl

theorem width_eq (ls : List Lexeme) : width ls = (ls.flatMap fun l => l.text).length := by
  induction ls with
  | nil => rfl
  | cons l ls ih => rw [width, ih, List.flatMap_cons, List.length_append]

/-! ### The lexemes of collapsed code are read as they stand -/

theorem formed_of_mem_joinedLexemes (hform : ∀ l ∈ ls, l.Formed) :
    ∀ m ∈ joinedLexemes first gap ls, m.Formed := by
  induction ls generalizing first gap with
  | nil => simp [joinedLexemes]
  | cons l ls ih =>
    have hforms : ∀ m ∈ ls, m.Formed := fun m hm => hform m (List.mem_cons_of_mem l hm)
    cases hl : l.kind.isTrivia with
    | true =>
      rw [joinedLexemes_of_isTrivia hl]
      exact ih hforms
    | false =>
      rw [joinedLexemes_cons hl]
      intro m hm
      rw [List.mem_append, List.mem_cons] at hm
      rcases hm with hm | rfl | hm
      · split at hm
        · obtain rfl := List.mem_singleton.mp hm
          exact Lexeme.formed_blank
        · cases hm
      · exact (hform l (by simp)).escapeBreaks hl
      · exact ih hforms m hm

/-- After a gap comes a blank, unless nothing comes. -/
theorem head?_joinedLexemes_of_gap {m : Lexeme}
    (hm : m ∈ (joinedLexemes false true ls).head?) : m = Lexeme.blank := by
  induction ls with
  | nil => cases hm
  | cons l ls ih =>
    cases hl : l.kind.isTrivia with
    | true =>
      rw [joinedLexemes_of_isTrivia hl] at hm
      exact ih hm
    | false =>
      rw [joinedLexemes_cons hl] at hm
      exact (Option.some.inj hm).symm

/-- A lexeme may stand before what comes next in the collapsed code. -/
theorem adjoins_head?_joinedLexemes (hl : l.kind.isTrivia = false)
    (hchain : (l :: ls).IsChain Lexeme.Adjoins) {m : Lexeme}
    (hm : m ∈ (joinedLexemes false false ls).head?) : l.escapeBreaks.Adjoins m := by
  cases ls with
  | nil => cases hm
  | cons n ls =>
    obtain ⟨hadjoins, -⟩ := List.isChain_cons_cons.mp hchain
    cases hn : n.kind.isTrivia with
    | true =>
      -- a blank takes the place of what separated the two
      rw [joinedLexemes_of_isTrivia hn] at hm
      rw [head?_joinedLexemes_of_gap hm]
      exact hadjoins.blank hl
    | false =>
      rw [joinedLexemes_cons hn] at hm
      obtain rfl := Option.some.inj hm
      exact hadjoins.escapeBreaks hl

theorem isChain_joinedLexemes (hchain : ls.IsChain Lexeme.Adjoins) :
    (joinedLexemes first gap ls).IsChain Lexeme.Adjoins := by
  induction ls generalizing first gap with
  | nil => exact .nil
  | cons l ls ih =>
    cases hl : l.kind.isTrivia with
    | true =>
      rw [joinedLexemes_of_isTrivia hl]
      exact ih hchain.tail
    | false =>
      have hrest : (l.escapeBreaks :: joinedLexemes false false ls).IsChain Lexeme.Adjoins :=
        (ih hchain.tail).cons fun m hm => adjoins_head?_joinedLexemes hl hchain hm
      rw [joinedLexemes_cons hl]
      split
      · refine hrest.cons fun m hm => ?_
        obtain rfl := Option.some.inj hm
        exact Lexeme.blank_adjoins hl
      · exact hrest

/-- **How collapsed code is split**: into the lexemes that it was put together of. -/
theorem lexemes_join (first gap : Bool) (code : Text) :
    lexemes (join first gap (lexemes code)) = joinedLexemes first gap (lexemes code) := by
  rw [join_eq]
  exact lexemes_flatMap_text (isChain_joinedLexemes (isChain_lexemes code))
    (formed_of_mem_joinedLexemes fun l hl => formed_of_mem_lexemes hl)

/-! ### What is kept, and what is left between -/

theorem significant_joinedLexemes (first gap : Bool) (ls : List Lexeme) :
    Lexeme.significant (joinedLexemes first gap ls) =
      (Lexeme.significant ls).map Lexeme.escapeBreaks := by
  induction ls generalizing first gap with
  | nil => rfl
  | cons l ls ih =>
    cases hl : l.kind.isTrivia with
    | true =>
      rw [joinedLexemes_of_isTrivia hl, ih]
      simp [Lexeme.significant, hl]
    | false =>
      have hblank : Lexeme.significant (if gap && !first then [Lexeme.blank] else []) = [] := by
        split <;> rfl
      have hcons (ms : List Lexeme) : Lexeme.significant (l.escapeBreaks :: ms) =
          l.escapeBreaks :: Lexeme.significant ms :=
        List.filter_cons_of_pos (by simp [hl])
      rw [joinedLexemes_cons hl, significant_append, hblank, hcons, ih]
      simp [Lexeme.significant, hl]

/-- Collapsed code begins with a lexeme that carries structure. -/
theorem isTrivia_of_head?_joinedLexemes {m : Lexeme}
    (hm : m ∈ (joinedLexemes true gap ls).head?) : m.kind.isTrivia = false := by
  induction ls generalizing gap with
  | nil => cases hm
  | cons l ls ih =>
    cases hl : l.kind.isTrivia with
    | true =>
      rw [joinedLexemes_of_isTrivia hl] at hm
      exact ih hm
    | false =>
      rw [joinedLexemes_cons hl, Bool.not_true, Bool.and_false, if_neg Bool.false_ne_true] at hm
      obtain rfl := Option.some.inj hm
      rwa [Lexeme.escapeBreaks_kind]

/-- Collapsed code ends with the last lexeme that carries structure. -/
theorem getLast?_joinedLexemes (first gap : Bool) (ls : List Lexeme) :
    (joinedLexemes first gap ls).getLast? =
      (Lexeme.significant ls).getLast?.map Lexeme.escapeBreaks := by
  induction ls generalizing first gap with
  | nil => rfl
  | cons l ls ih =>
    cases hl : l.kind.isTrivia with
    | true =>
      have hsig : Lexeme.significant (l :: ls) = Lexeme.significant ls :=
        List.filter_cons_of_neg (by simp [hl])
      rw [joinedLexemes_of_isTrivia hl, ih, hsig]
    | false =>
      have hsig : Lexeme.significant (l :: ls) = l :: Lexeme.significant ls :=
        List.filter_cons_of_pos (by simp [hl])
      rw [joinedLexemes_cons hl, List.getLast?_append, List.getLast?_cons, ih, hsig,
        List.getLast?_cons]
      cases (Lexeme.significant ls).getLast? <;> rfl

/-- Behind the last lexeme that carries structure nothing is left, nor before the first one if
`first` says so. Elsewhere a run leaves a blank, unless it was empty; `gap` says that the first run
began before the text. -/
theorem triviaRuns_joinedLexemes (first gap : Bool) (ls : List Lexeme) (i : Nat) :
    (triviaRuns (joinedLexemes first gap ls))[i]? = (triviaRuns ls)[i]?.map fun run =>
      if (0 < i ∨ first = false) ∧ i < (Lexeme.significant ls).length ∧
          (run ≠ [] ∨ i = 0 ∧ gap = true) then [Lexeme.blank] else [] := by
  induction ls generalizing first gap i with
  | nil => cases i <;> simp [joinedLexemes, triviaRuns, Lexeme.significant]
  | cons l ls ih =>
    cases hl : l.kind.isTrivia with
    | true =>
      have hsig : Lexeme.significant (l :: ls) = Lexeme.significant ls := by
        simp [Lexeme.significant, hl]
      rw [joinedLexemes_of_isTrivia hl, triviaRuns_cons_of_isTrivia hl, hsig, ih]
      cases i with
      | zero =>
        -- the first run holds this lexeme too, so it is not empty
        rw [List.getElem?_modifyHead_zero, Option.map_map]
        congr 1
        funext run
        simp
      | succ i =>
        rw [List.getElem?_modifyHead_succ]
        simp
    | false =>
      have hsig : (Lexeme.significant (l :: ls)).length = (Lexeme.significant ls).length + 1 := by
        simp [Lexeme.significant, hl]
      have hruns : triviaRuns (joinedLexemes first gap (l :: ls)) =
          (if gap && !first then [Lexeme.blank] else []) ::
            triviaRuns (joinedLexemes false false ls) := by
        rw [joinedLexemes_cons hl]
        split
        · rw [List.singleton_append, triviaRuns_cons_of_isTrivia rfl,
            triviaRuns_cons (l := l.escapeBreaks) hl]
          rfl
        · rw [List.nil_append, triviaRuns_cons (l := l.escapeBreaks) hl]
      rw [hruns, triviaRuns_cons hl, hsig]
      cases i with
      | zero => cases first <;> cases gap <;> simp
      | succ i =>
        rw [List.getElem?_cons_succ, List.getElem?_cons_succ, ih]
        simp

/-! ### Collapsing -/

theorem lineFeed_not_mem_joinedLexemes {m : Lexeme} (hm : m ∈ joinedLexemes first gap ls) :
    lineFeed ∉ m.text := by
  induction ls generalizing first gap with
  | nil => cases hm
  | cons l ls ih =>
    cases hl : l.kind.isTrivia with
    | true =>
      rw [joinedLexemes_of_isTrivia hl] at hm
      exact ih hm
    | false =>
      rw [joinedLexemes_cons hl, List.mem_append, List.mem_cons] at hm
      rcases hm with hm | rfl | hm
      · split at hm
        · obtain rfl := List.mem_singleton.mp hm
          decide
        · cases hm
      · exact lineFeed_not_mem_escapeBreaks l.text
      · exact ih hm

/-- Collapsed code is one line. -/
theorem lineFeed_not_mem_join (first gap : Bool) (ls : List Lexeme) :
    lineFeed ∉ join first gap ls := by
  rw [join_eq, List.mem_flatMap]
  rintro ⟨m, hm, hmem⟩
  exact lineFeed_not_mem_joinedLexemes hm hmem

theorem escapeBreaks_escapeBreaks (l : Lexeme) : l.escapeBreaks.escapeBreaks = l.escapeBreaks :=
  congrArg (Lexeme.mk l.kind)
    (escapeBreaks_of_not_mem (lineFeed_not_mem_escapeBreaks l.text))

/-- Joining again changes nothing. -/
theorem joinedLexemes_joinedLexemes (first gap : Bool) (ls : List Lexeme) :
    joinedLexemes first false (joinedLexemes first gap ls) = joinedLexemes first gap ls := by
  induction ls generalizing first gap with
  | nil => rfl
  | cons l ls ih =>
    cases hl : l.kind.isTrivia with
    | true => rw [joinedLexemes_of_isTrivia hl, ih]
    | false =>
      have hrest (g : Bool) : joinedLexemes first g
          (l.escapeBreaks :: joinedLexemes false false ls) =
            (if g && !first then [Lexeme.blank] else []) ++
              l.escapeBreaks :: joinedLexemes false false ls := by
        rw [joinedLexemes_cons (l := l.escapeBreaks) hl, escapeBreaks_escapeBreaks, ih]
      rw [joinedLexemes_cons hl]
      cases hgap : gap && !first with
      | true =>
        have hfirst : first = false := by simp_all
        rw [if_pos rfl, List.singleton_append, joinedLexemes_of_isTrivia rfl, hrest, hfirst]
        rfl
      | false =>
        rw [if_neg Bool.false_ne_true, List.nil_append, hrest]
        rfl

/-- Collapsing fails where the tokens of the code end before it. -/
theorem collapse_eq (code : Text) : collapse code =
    if tokensEnd code < code.length then .error (.unterminated (tokensEnd code))
    else .ok (join true false (lexemes code)) := by
  rw [collapse, tokensEnd_eq, width_eq]
  simp only [Int.ofNat_lt]

theorem collapse_eq_ok_iff {code r : Text} : collapse code = .ok r ↔
    ¬ tokensEnd code < code.length ∧ r = join true false (lexemes code) := by
  rw [collapse_eq]
  split
  · next h => exact iff_of_false (by simp) fun h' => h'.1 h
  · next h => simp [h, eq_comm]

/-- Collapsing collapsed code changes nothing. -/
theorem collapse_join (code : Text) :
    collapse (join true false (lexemes code)) = .ok (join true false (lexemes code)) := by
  rw [collapse_eq_ok_iff]
  constructor
  · rw [tokensEnd_eq, lexemes_join, ← join_eq]
    exact Int.lt_irrefl _
  · rw [lexemes_join, join_eq true false (joinedLexemes _ _ _), joinedLexemes_joinedLexemes,
      join_eq]

/-- **What collapsing keeps of code.** Code cannot be collapsed exactly if its tokens end before it
does; then the error names the offset at which they end. Collapsed code has no line feeds. It holds
the significant lexemes of the code, with the line breaks in them escaped, and one blank between two
of them exactly where white space or comments stood between them in the code; it holds no other
white space and no comments, and collapsing it once more changes nothing. -/
theorem collapse_keeps_lexemes (code : Text) :
    ((∃ e, collapse code = .error e) ↔ tokensEnd code < code.length) ∧
      (∀ e, collapse code = .error e → e = .unterminated (tokensEnd code)) ∧
      ∀ r, collapse code = .ok r →
        lineFeed ∉ r ∧
        Lexeme.significant (lexemes r) =
          (Lexeme.significant (lexemes code)).map Lexeme.escapeBreaks ∧
        (∀ i, (triviaRuns (lexemes r))[i]? = (triviaRuns (lexemes code))[i]?.map fun run =>
          if 0 < i ∧ i < (Lexeme.significant (lexemes code)).length ∧ run ≠ [] then
            [Lexeme.blank] else []) ∧
        collapse r = .ok r := by
  refine ⟨?_, fun e he => ?_, fun r hr => ?_⟩
  · rw [collapse_eq]
    split
    · next h => exact iff_of_true ⟨_, rfl⟩ h
    · next h => exact iff_of_false (fun ⟨_, he⟩ => by cases he) h
  · rw [collapse_eq] at he
    split at he
    · cases he
      rfl
    · cases he
  · obtain ⟨-, rfl⟩ := collapse_eq_ok_iff.mp hr
    refine ⟨lineFeed_not_mem_join _ _ _, ?_, fun i => ?_, collapse_join code⟩
    · rw [lexemes_join, significant_joinedLexemes]
    · rw [lexemes_join, triviaRuns_joinedLexemes]
      simp

end Statement

end SexpEditing
