import SexpEditing.Proofs.Token.Form
import SexpEditing.Proofs.Token.LineStart
import SexpEditing.Symbol.Definitions

/-!
# Definitions and comments

What is a comment is decided twice. The tokens of a text know strings that go on over several lines
and backslashes before a quotation mark, while the definitions of a line are cut off where the line,
read by itself, has its first semicolon outside of strings. So a definition in a comment may be
reported. It is not if the line has whole strings only before the comment.

## Main definitions

* `Text.InLineComment`: an offset lies in a comment that a semicolon begins
* `Text.OwnStrings`: the quotation marks of a part belong to strings that start in it
* `Text.WholeStrings`: a text that is in no string at its end when it is read by itself
* `SourceDefinition.linesAt`, `SourceDefinition.located`: the lines and the definitions of a text
  with their offsets
* `SourceDefinition.CutOff`: a semicolon outside of strings stands before a place of a line

## Main results

* `SourceDefinition.commentStart_le_iff`: where the definitions of a line are cut off
* `SourceDefinition.mem_inLine_iff`: the definitions of a line
* `SourceDefinition.reports_no_comment_iff`: the texts of which no comment is reported
* `SourceDefinition.reports_comment`: a text of which one is
-/

namespace SexpEditing

open CodeUnit Token

/-- A comment that a semicolon begins. -/
def Lexeme.IsLineComment (l : Lexeme) : Prop := l.kind = .comment ∧ l.text.head? = some semicolon

namespace Text

/-- An offset lies in a comment that a semicolon begins. -/
def InLineComment (t : Text) (offset : Nat) : Prop :=
  ∃ u ∈ tokenize t, u.IsLineComment ∧ u.start ≤ offset ∧ offset < u.stop

/-- Each quotation mark between two offsets belongs to a string that starts between them. -/
def OwnStrings (t : Text) (first last : Int) : Prop :=
  ∀ i : Nat, first ≤ i → i < last → t[i]? = some quotationMark →
    ∃ s ∈ tokenize t, s.kind = .string ∧ first ≤ s.start ∧ s.start ≤ i ∧ i < s.stop

/-- A text in which, read from the left, each quotation mark belongs to a whole string. -/
inductive WholeStrings : Text → Prop
  | nil : WholeStrings []
  | unit {c : CodeUnit} {w : Text} (hc : c ≠ quotationMark) (hw : WholeStrings w) :
      WholeStrings (c :: w)
  | string {body w : Text} (hb : stringTail body = some (body, [])) (hw : WholeStrings w) :
      WholeStrings (quotationMark :: (body ++ w))

theorem WholeStrings.append {v w : Text} (hv : WholeStrings v) (hw : WholeStrings w) :
    WholeStrings (v ++ w) := by
  induction hv with
  | nil => exact hw
  | unit hc _ ih => exact .unit hc ih
  | string hb _ ih =>
    rw [List.cons_append, List.append_assoc]
    exact .string hb ih

theorem WholeStrings.of_not_mem {w : Text} (h : quotationMark ∉ w) : WholeStrings w := by
  induction w with
  | nil => exact .nil
  | cons c w ih =>
    rw [List.mem_cons, not_or] at h
    exact .unit (Ne.symm h.1) (ih h.2)

end Text

open Text

/-- A lexeme is a string, or every quotation mark in it belongs to something else. -/
theorem Lexeme.Formed.wholeStrings {l : Lexeme} (h : l.Formed)
    (hq : l.kind = .string ∨ quotationMark ∉ l.text) : WholeStrings l.text := by
  by_cases hk : quotationMark ∈ l.text
  · cases h with
    | @string body hb =>
      have := WholeStrings.string hb .nil
      rwa [List.append_nil] at this
    | _ => exact absurd hk (hq.resolve_left (by simp))
  · exact .of_not_mem hk

/-- A comment that a semicolon begins holds no line feed. -/
theorem Lexeme.Formed.not_mem_of_isLineComment {l : Lexeme} (h : l.Formed)
    (hl : l.IsLineComment) : lineFeed ∉ l.text := by
  obtain ⟨hk, hhead⟩ := hl
  cases h with
  | @lineComment body hb =>
    rw [List.mem_cons, not_or]
    refine ⟨by decide, fun hmem => ?_⟩
    have := List.all_eq_true.mp hb _ hmem
    revert this
    decide
  | blockComment => cases hhead
  | _ => cases hk

namespace SourceDefinition

/-! ### Where a line is cut off -/

theorem commentStartFrom_unit {c : CodeUnit} (hb : c ≠ backslash) (rest : Text) (inString : Bool) :
    commentStartFrom inString (c :: rest) =
      if inString then commentStartFrom (c != quotationMark) rest + 1
      else if c = semicolon then 0
      else commentStartFrom (c == quotationMark) rest + 1 :=
  commentStartFrom.eq_3 inString c rest fun _ _ hc _ => hb hc

/-- Outside of strings a backslash is a unit like any other. -/
theorem commentStartFrom_false {c : CodeUnit} (hq : c ≠ quotationMark) (hs : c ≠ semicolon)
    (rest : Text) : commentStartFrom false (c :: rest) = commentStartFrom false rest + 1 := by
  by_cases hb : c = backslash
  · subst hb
    cases rest <;> rfl
  · rw [commentStartFrom_unit hb, if_neg Bool.false_ne_true, if_neg hs, beq_false_of_ne hq]

/-- In strings a semicolon is a unit like any other. -/
theorem commentStartFrom_true {c : CodeUnit} (hq : c ≠ quotationMark) (hb : c ≠ backslash)
    (rest : Text) : commentStartFrom true (c :: rest) = commentStartFrom true rest + 1 := by
  rw [commentStartFrom_unit hb, if_pos rfl, bne_iff_ne.mpr hq]

/-- In a string, what belongs to it is passed over. -/
theorem commentStartFrom_of_stringTail {t body rest : Text}
    (h : stringTail t = some (body, rest)) :
    commentStartFrom true t = commentStartFrom false rest + body.length := by
  fun_induction stringTail t generalizing body rest with
  | case1 => cases h
  | case2 r =>
    cases h
    rfl
  | case3 c r ih =>
    obtain ⟨split, hs, he⟩ := Option.map_eq_some_iff.mp h
    cases he
    exact congrArg (· + 2) (ih hs)
  | case4 => cases h
  | case5 c r hq hb hc ih =>
    obtain ⟨split, hs, he⟩ := Option.map_eq_some_iff.mp h
    cases he
    rw [commentStartFrom_true hq hc]
    exact congrArg (· + 1) (ih hs)

/-- In a string without an end, no semicolon counts. -/
theorem commentStartFrom_of_stringTail_none {t : Text} (h : stringTail t = none) :
    commentStartFrom true t = t.length := by
  fun_induction stringTail t with
  | case1 => rfl
  | case2 => cases h
  | case3 c r ih => exact congrArg (· + 2) (ih (Option.map_eq_none_iff.mp h))
  | case4 r hq hb =>
    -- a backslash alone
    cases r with
    | nil => rfl
    | cons d r => exact (hb d r rfl rfl).elim
  | case5 c r hq hb hc ih =>
    rw [commentStartFrom_true hq hc]
    exact congrArg (· + 1) (ih (Option.map_eq_none_iff.mp h))

/-- What follows whole strings is read as if it stood alone, up to the first semicolon. -/
theorem commentStartFrom_wholeStrings {w : Text} (hw : WholeStrings w) (rest : Text) :
    commentStartFrom false (w ++ rest) ≤ commentStartFrom false rest + w.length := by
  induction hw with
  | nil => exact Nat.le_refl _
  | @unit c w hc _ ih =>
    by_cases hs : c = semicolon
    · rw [hs]
      exact Nat.zero_le _
    · rw [List.cons_append, commentStartFrom_false hc hs, List.length_cons]
      omega
  | @string body w hb _ ih =>
    have hstring := commentStartFrom_of_stringTail (stringTail_append_right hb (w ++ rest))
    have hquote : commentStartFrom false (quotationMark :: (body ++ (w ++ rest))) =
        commentStartFrom true (body ++ (w ++ rest)) + 1 := rfl
    rw [List.cons_append, List.append_assoc, hquote, hstring, List.nil_append, List.length_cons,
      List.length_append]
    omega

/-- Behind whole strings there is a semicolon if a line is cut off at all. -/
theorem exists_of_commentStart_lt {t : Text} (h : commentStart t < t.length) :
    ∃ w rest, t = w ++ semicolon :: rest ∧ WholeStrings w ∧ w.length = commentStart t := by
  unfold commentStart at h ⊢
  induction hn : t.length using Nat.strong_induction_on generalizing t with
  | _ n ih =>
    subst hn
    cases t with
    | nil => cases h
    | cons c t =>
      by_cases hq : c = quotationMark
      · subst hq
        change commentStartFrom true t + 1 < t.length + 1 at h
        cases hs : stringTail t with
        | none =>
          rw [commentStartFrom_of_stringTail_none hs] at h
          exact absurd h (Nat.lt_irrefl _)
        | some split =>
          obtain ⟨body, r⟩ := split
          have ht := stringTail_append hs
          have hr := commentStartFrom_of_stringTail hs
          have hlen := congrArg List.length ht
          rw [List.length_append] at hlen
          obtain ⟨w, rest, rfl, hw, hwl⟩ := ih r.length (by simp; omega) (by omega) rfl
          refine ⟨quotationMark :: (body ++ w), rest, ?_, .string (stringTail_self hs) hw, ?_⟩
          · simp [← ht]
          · change _ = commentStartFrom true t + 1
            rw [hr, List.length_cons, List.length_append]
            omega
      · by_cases hsemi : c = semicolon
        · subst hsemi
          exact ⟨[], t, rfl, .nil, rfl⟩
        · rw [commentStartFrom_false hq hsemi] at h ⊢
          obtain ⟨w, rest, rfl, hw, hwl⟩ :=
            ih t.length (Nat.lt_succ_self _) (Nat.lt_of_succ_lt_succ h) rfl
          exact ⟨c :: w, rest, rfl, .unit hq hw, congrArg (· + 1) hwl⟩

/-- A semicolon that is in no string stands before a place of a line, or at it: what precedes the
semicolon has whole strings only. -/
def CutOff (line : Text) (place : Nat) : Prop :=
  ∃ before after, line = before ++ semicolon :: after ∧ WholeStrings before ∧
    before.length ≤ place

/-- **Where the definitions of a line are cut off** -/
theorem commentStart_le_iff {line : Text} {place : Nat} (h : place < line.length) :
    commentStart line ≤ place ↔ CutOff line place := by
  constructor
  · intro hle
    obtain ⟨w, rest, hline, hw, hlen⟩ := exists_of_commentStart_lt (Nat.lt_of_le_of_lt hle h)
    exact ⟨w, rest, hline, hw, hlen ▸ hle⟩
  · rintro ⟨w, rest, rfl, hw, hle⟩
    have hsemi : commentStartFrom false (semicolon :: rest) = 0 := rfl
    have hstart := commentStartFrom_wholeStrings hw (semicolon :: rest)
    rw [hsemi, Nat.zero_add] at hstart
    exact Nat.le_trans hstart hle

/-! ### The definitions of a line -/

/-- The definitions of a line start in it, one behind the other. -/
theorem pairwise_matchesFrom (before : Option CodeUnit) (offset : Nat) (t : Text) :
    (matchesFrom before offset t).Pairwise (fun m m' => m.start < m'.start) ∧
      ∀ m ∈ matchesFrom before offset t, offset ≤ m.start ∧ m.start < offset + t.length := by
  fun_induction matchesFrom before offset t with
  | case1 => exact ⟨.nil, by simp⟩
  | case2 before offset c rest category name after hhere ih =>
    have hlt := length_lt_of_here? hhere
    obtain ⟨hpairs, hplace⟩ := ih
    refine ⟨List.pairwise_cons.mpr ⟨fun m hm => ?_, hpairs⟩, fun m hm => ?_⟩
    · have := (hplace m hm).1
      simp only
      omega
    · rcases List.mem_cons.mp hm with rfl | hm
      · simp
      · have := hplace m hm
        omega
  | case3 before offset c rest hnone ih =>
    obtain ⟨hpairs, hplace⟩ := ih
    refine ⟨hpairs, fun m hm => ?_⟩
    have := hplace m hm
    simp only [List.length_cons]
    omega

theorem mem_takeWhile_iff {α : Type} {p : α → Bool} {l : List α}
    (h : l.Pairwise fun a b => p b → p a) {a : α} : a ∈ l.takeWhile p ↔ a ∈ l ∧ p a = true := by
  induction l with
  | nil => simp
  | cons b l ih =>
    rw [List.pairwise_cons] at h
    by_cases hb : p b
    · rw [List.takeWhile_cons_of_pos hb, List.mem_cons, ih h.2, List.mem_cons]
      grind
    · rw [List.takeWhile_cons_of_neg hb]
      refine iff_of_false (by simp) ?_
      rintro ⟨ha, hpa⟩
      rcases List.mem_cons.mp ha with rfl | ha
      · exact hb hpa
      · exact hb (h.1 a ha hpa)

/-- **The definitions of a line** are those that are not cut off. -/
theorem mem_inLine_iff {line : Text} {m : LineDefinition} :
    m ∈ inLine line ↔ m ∈ matchesFrom none 0 line ∧ ¬ CutOff line m.start := by
  obtain ⟨hpairs, hplace⟩ := pairwise_matchesFrom none 0 line
  rw [inLine, mem_takeWhile_iff (hpairs.imp fun hlt hp => by simp at hp ⊢; omega)]
  refine and_congr_right fun hm => ?_
  rw [← commentStart_le_iff (by have := hplace m hm; omega), decide_eq_true_eq, Nat.not_le]

/-! ### Offsets -/

/-- The lines of a text from an offset on, each with the offset at which it starts. -/
def linesAt (offset : Nat) : Text → List (Nat × Text)
  | [] => [(offset, [])]
  | carriageReturn :: lineFeed :: rest => (offset, []) :: linesAt (offset + 2) rest
  | lineFeed :: rest => (offset, []) :: linesAt (offset + 1) rest
  | c :: rest =>
    match linesAt (offset + 1) rest with
    | [] => [(offset, [c])]
    | (_, line) :: more => (offset, c :: line) :: more

theorem map_snd_linesAt (offset : Nat) (t : Text) : (linesAt offset t).map Prod.snd = lines t := by
  fun_induction lines t generalizing offset with
  | case1 => rfl
  | case2 rest ih => exact congrArg ([] :: ·) (ih (offset + 2))
  | case3 rest ih => exact congrArg ([] :: ·) (ih (offset + 1))
  | case4 c rest hcr hlf hnil ih =>
    have ih := ih (offset + 1)
    rw [hnil, List.map_eq_nil_iff] at ih
    rw [linesAt.eq_4 _ _ _ hcr hlf, ih]
    rfl
  | case5 c rest hcr hlf line more hcons ih =>
    have ih := ih (offset + 1)
    rw [hcons] at ih
    obtain ⟨⟨o, l⟩, ls, hls, hl, hmore⟩ := List.map_eq_cons_iff.mp ih
    rw [linesAt.eq_4 _ _ _ hcr hlf, hls, ← hmore, ← hl]
    rfl

/-- The lines, the first of which has a number, with the definitions in each. -/
def locatedFrom (number : Nat) : List (Nat × Text) → List (Nat × SourceDefinition)
  | [] => []
  | (offset, line) :: rest =>
    ((inLine line).map fun m => (offset + m.start, ⟨m.category, m.name, number⟩)) ++
      locatedFrom (number + 1) rest

/-- The definitions of a text, each with the offset at which it starts. -/
def located (t : Text) : List (Nat × SourceDefinition) := locatedFrom 0 (linesAt 0 t)

theorem map_snd_locatedFrom (number : Nat) (ls : List (Nat × Text)) :
    (locatedFrom number ls).map Prod.snd = ofLines number (ls.map Prod.snd) := by
  induction ls generalizing number with
  | nil => rfl
  | cons l ls ih =>
    rw [locatedFrom, List.map_append, ih, List.map_map, List.map_cons, ofLines]
    rfl

/-- Without their offsets they are what is reported. -/
theorem map_snd_located (t : Text) : (located t).map Prod.snd = ofText t := by
  rw [located, map_snd_locatedFrom, map_snd_linesAt, ofText]

theorem exists_mem_locatedFrom_iff {number place : Nat} {ls : List (Nat × Text)} :
    (∃ d, (place, d) ∈ locatedFrom number ls) ↔
      ∃ l ∈ ls, ∃ m ∈ inLine l.2, l.1 + m.start = place := by
  induction ls generalizing number with
  | nil => simp [locatedFrom]
  | cons l ls ih =>
    simp only [locatedFrom, List.mem_append, exists_or, ih, List.mem_map, List.mem_cons,
      exists_eq_or_imp]
    refine or_congr_left ?_
    constructor
    · rintro ⟨d, m, hm, he⟩
      exact ⟨m, hm, congrArg Prod.fst he⟩
    · rintro ⟨m, hm, rfl⟩
      exact ⟨_, m, hm, rfl⟩

/-- A line of a text stands at its offset, behind a line feed. -/
def Follows (offset : Nat) (t : Text) (l : Nat × Text) : Prop :=
  ∃ before after, t = before ++ l.2 ++ after ∧ l.1 = offset + before.length ∧
    before.getLast? = some lineFeed

theorem Follows.append_left {offset : Nat} {t : Text} {l : Nat × Text} (w : Text)
    (h : Follows (offset + w.length) t l) : Follows offset (w ++ t) l := by
  obtain ⟨before, after, rfl, hl, hlast⟩ := h
  refine ⟨w ++ before, after, by simp, ?_, ?_⟩
  · rw [hl, List.length_append, Nat.add_assoc]
  · rw [List.getLast?_append, hlast]
    rfl

/-- The first line begins the text, and each of the others stands behind a line feed. -/
theorem exists_linesAt (offset : Nat) (t : Text) :
    ∃ first ls, linesAt offset t = (offset, first) :: ls ∧ first <+: t ∧
      ∀ l ∈ ls, Follows offset t l := by
  -- behind a line break, the first line stands behind a line feed, too
  have hbreak {offset : Nat} {w rest : Text} (hw : w.getLast? = some lineFeed)
      (ih : ∃ first ls, linesAt (offset + w.length) rest = (offset + w.length, first) :: ls ∧
        first <+: rest ∧ ∀ l ∈ ls, Follows (offset + w.length) rest l) :
      ∀ l ∈ linesAt (offset + w.length) rest, Follows offset (w ++ rest) l := by
    obtain ⟨first, ls, hls, ⟨after, hafter⟩, hfollow⟩ := ih
    rw [hls, List.forall_mem_cons]
    refine ⟨⟨w, after, ?_, rfl, hw⟩, fun l hl => (hfollow l hl).append_left w⟩
    rw [List.append_assoc, hafter]
  fun_induction linesAt offset t with
  | case1 => exact ⟨[], [], rfl, List.nil_prefix, by simp⟩
  | case2 offset rest ih =>
    exact ⟨[], _, rfl, List.nil_prefix, hbreak (w := [carriageReturn, lineFeed]) rfl ih⟩
  | case3 offset rest ih =>
    exact ⟨[], _, rfl, List.nil_prefix, hbreak (w := [lineFeed]) rfl ih⟩
  | case4 offset c rest hcr hlf hnil ih =>
    obtain ⟨first, ls, hls, -⟩ := ih
    rw [hls] at hnil
    cases hnil
  | case5 offset c rest hcr hlf start line more hcons ih =>
    obtain ⟨first, ls, hls, hpre, hfollow⟩ := ih
    rw [hcons] at hls
    cases hls
    exact ⟨c :: line, more, rfl, List.prefix_cons_inj c |>.mpr hpre,
      fun l hl => (hfollow l hl).append_left [c]⟩

/-- **The lines of a text** stand at their offsets, each at the start of the text or behind a line
feed. -/
theorem exists_around_of_mem_linesAt {t : Text} {l : Nat × Text} (h : l ∈ linesAt 0 t) :
    ∃ before after, t = before ++ l.2 ++ after ∧ l.1 = before.length ∧ EndsLine before := by
  obtain ⟨first, ls, hls, ⟨after, hafter⟩, hfollow⟩ := exists_linesAt 0 t
  rw [hls, List.mem_cons] at h
  rcases h with rfl | h
  · exact ⟨[], after, hafter.symm, rfl, .inl rfl⟩
  · obtain ⟨before, after, ht, hl, hlast⟩ := hfollow l h
    exact ⟨before, after, ht, hl.trans (Nat.zero_add _), .inr hlast⟩

/-! ### Comments by their tokens -/

/-- What lexemes cover from an offset on has whole strings only, if every quotation mark in it
belongs to a string that starts there. -/
theorem wholeStrings_drop {ls : List Lexeme} (hform : ∀ l ∈ ls, l.Formed) (start : Int)
    (offset : Nat)
    (h : ∀ i, offset ≤ i → (ls.flatMap fun l => l.text)[i]? = some quotationMark →
      ∃ u ∈ Lexeme.layOut start ls, u.kind = .string ∧ start + offset ≤ u.start ∧
        u.start ≤ start + i ∧ start + i < u.stop) :
    WholeStrings ((ls.flatMap fun l => l.text).drop offset) := by
  induction ls generalizing start offset with
  | nil =>
    rw [List.flatMap_nil, List.drop_nil]
    exact .nil
  | cons l ls ih =>
    rw [List.forall_mem_cons] at hform
    rw [List.flatMap_cons] at h ⊢
    -- a quotation mark in the first lexeme makes it the string
    have hfirst {i : Nat} (ho : offset ≤ i) (hq : l.text[i]? = some quotationMark) :
        offset = 0 ∧ l.kind = .string := by
      obtain ⟨hi, -⟩ := List.getElem?_eq_some_iff.mp hq
      obtain ⟨u, hu, hk, hstart, hle, hlt⟩ :=
        h i ho (by rw [List.getElem?_append_left hi, hq])
      rcases List.mem_cons.mp hu with rfl | hu
      · simp only [Token.start] at hstart
        exact ⟨by omega, hk⟩
      · have := le_start_of_mem_layOut hu
        omega
    rw [List.drop_append]
    refine .append ?_ (ih hform.2 (start + l.text.length) _ fun i hi hq => ?_)
    · by_cases hzero : offset = 0
      · rw [hzero, List.drop_zero]
        refine hform.1.wholeStrings ((em _).imp_right fun hk hmem => ?_)
        obtain ⟨i, hi⟩ := List.getElem?_of_mem hmem
        exact hk (hfirst (by omega) hi).2
      · refine .of_not_mem fun hmem => ?_
        obtain ⟨i, hi⟩ := List.getElem?_of_mem hmem
        rw [List.getElem?_drop] at hi
        exact hzero (hfirst (Nat.le_add_right _ _) hi).1
    · obtain ⟨u, hu, hk, hstart, hle, hlt⟩ := h (l.text.length + i) (by omega) (by
        rw [List.getElem?_append_right (Nat.le_add_right _ _), Nat.add_sub_cancel_left, hq])
      rcases List.mem_cons.mp hu with rfl | hu
      · simp only [Token.stop] at hlt
        omega
      · have := le_start_of_mem_layOut hu
        exact ⟨u, hu, hk, by omega, by omega, by omega⟩

/-- A comment that a semicolon begins holds no line break, so it starts on the line on which it goes
on. -/
theorem length_le_of_isLineComment {before front x rest : Text} {l : Lexeme}
    (ht : before ++ x = front ++ (l.text ++ rest)) (hends : EndsLine before) (hform : l.Formed)
    (hcomment : l.IsLineComment) (hlt : before.length < front.length + l.text.length) :
    before.length ≤ front.length := by
  by_contra hlong
  have hlast := hends.getLast?_eq (List.ne_nil_of_length_pos (by omega))
  have hfeed : (before ++ x)[before.length - 1]? = some lineFeed := by
    rw [List.getElem?_append_left (by omega), ← List.getLast?_eq_getElem?, hlast]
  rw [ht, List.getElem?_append_right (by omega), List.getElem?_append_left (by omega)] at hfeed
  exact hform.not_mem_of_isLineComment hcomment (List.mem_of_getElem? hfeed)

/-- **A line is cut off at its comment** if each quotation mark between the start of the line and
the comment belongs to a string that starts in between. -/
theorem cutOff_of_ownStrings {t : Text} {l : Nat × Text} (hl : l ∈ linesAt 0 t) {u : Token}
    (hu : u ∈ tokenize t) (hcomment : u.IsLineComment) (h : t.OwnStrings l.1 u.start)
    {place : Nat} (hplace : place < l.2.length) (hle : u.start ≤ l.1 + place)
    (hlt : l.1 + place < u.stop) : CutOff l.2 place := by
  obtain ⟨before, after, ht, hoffset, hends⟩ := exists_around_of_mem_linesAt hl
  obtain ⟨ls₁, ls₂, hls, hstart, hstop⟩ := exists_around_of_mem_layOut hu
  obtain ⟨rest, hrest, -⟩ := exists_flatMap_lexemes_append t
  obtain ⟨tail, htail⟩ := List.head?_eq_some_iff.mp hcomment.2
  generalize hfront : (ls₁.flatMap fun l => l.text) = front at hstart
  rw [hls, List.flatMap_append, hfront, List.flatMap_cons, List.append_assoc, List.append_assoc]
    at hrest
  rw [Int.zero_add] at hstart
  have hform := formed_of_mem_lexemes (mem_of_mem_layOut hu)
  have hline : before.length ≤ front.length :=
    length_le_of_isLineComment (by rw [← List.append_assoc, ← ht, ← hrest]) hends hform hcomment
      (by omega)
  have hdrop : l.2 ++ after = front.drop before.length ++ [semicolon] ++
      (tail ++ ((ls₂.flatMap fun l => l.text) ++ rest)) := by
    have := congrArg (List.drop before.length) (ht.symm.trans hrest.symm)
    rw [List.append_assoc, List.drop_left, List.drop_append_of_le_length hline, htail] at this
    rw [this]
    simp
  have hpre : front.drop before.length ++ [semicolon] <+: l.2 :=
    List.prefix_of_prefix_length_le ⟨_, hdrop.symm⟩ ⟨after, rfl⟩
      (by rw [List.length_append, List.length_drop, List.length_singleton]; omega)
  obtain ⟨more, hmore⟩ := hpre
  refine ⟨front.drop before.length, more, ?_, ?_, ?_⟩
  · rw [← hmore, List.append_assoc, List.singleton_append]
  · rw [← hfront]
    refine wholeStrings_drop (fun m hm => formed_of_mem_lexemes (t := t) (by simp [hls, hm])) 0 _
      fun i hi hq => ?_
    rw [hfront] at hq
    obtain ⟨hlt', -⟩ := List.getElem?_eq_some_iff.mp hq
    obtain ⟨s, hs, hsk, hs₁, hs₂, hs₃⟩ := h i (by omega) (by omega) (by
      rw [← hrest, List.getElem?_append_left hlt', hq])
    -- the string is one of the tokens before the comment
    rw [tokenize_of_lexemes hls, List.mem_append, hfront] at hs
    refine hs.elim (fun hs => ⟨s, hs, hsk, by omega, by omega, by omega⟩) fun hs => ?_
    have := le_start_of_mem_layOut hs
    omega
  · rw [List.length_drop]
    omega

/-! ### Comments that are reported -/

/-- **No definition in a comment is reported** of a text exactly if, before each defining word and
name in a comment, there is a semicolon that is in no string when the line is read by itself. There
is one if each quotation mark on the line before the comment belongs to a string that starts on the
line. -/
theorem reports_no_comment_iff (t : Text) :
    (located t).map Prod.snd = ofText t ∧
    ((∀ d ∈ located t, ¬ t.InLineComment d.1) ↔
      ∀ l ∈ linesAt 0 t, ∀ m ∈ matchesFrom none 0 l.2, t.InLineComment (l.1 + m.start) →
        CutOff l.2 m.start) ∧
    ∀ l ∈ linesAt 0 t, ∀ u ∈ tokenize t, u.IsLineComment → t.OwnStrings l.1 u.start →
      ∀ m ∈ matchesFrom none 0 l.2, u.start ≤ l.1 + m.start → l.1 + m.start < u.stop →
        CutOff l.2 m.start := by
  refine ⟨map_snd_located t, ?_, ?_⟩
  · constructor
    · intro h l hl m hm hcomment
      by_contra hcut
      obtain ⟨d, hd⟩ : ∃ d, (l.1 + m.start, d) ∈ located t :=
        exists_mem_locatedFrom_iff.mpr ⟨l, hl, m, mem_inLine_iff.mpr ⟨hm, hcut⟩, rfl⟩
      exact h _ hd hcomment
    · intro h d hd hcomment
      obtain ⟨l, hl, m, hm, hplace⟩ := exists_mem_locatedFrom_iff.mp ⟨d.2, hd⟩
      obtain ⟨hm, hcut⟩ := mem_inLine_iff.mp hm
      exact hcut (h l hl m hm (hplace ▸ hcomment))
  · intro l hl u hu hcomment hstrings m hm hle hlt
    have hplace := (pairwise_matchesFrom none 0 l.2).2 m hm
    exact cutOff_of_ownStrings hl hu hcomment hstrings (by omega) hle hlt

/-- **A definition in a comment that is reported**, since its line has an escaped quotation mark. -/
theorem reports_comment :
    ¬ ∀ t, ∀ d ∈ located t, ¬ t.InLineComment d.1 := by
  intro h
  refine h (Text.ofString "\\\" ; (defun x ()") (5, ⟨.functions, Text.ofString "x", 0⟩) ?_
    ⟨⟨⟨.comment, Text.ofString "; (defun x ()"⟩, ⟨3, 16⟩⟩, ?_, ⟨rfl, rfl⟩, by decide, by decide⟩
  · decide +kernel
  · decide +kernel

end SourceDefinition

end SexpEditing
