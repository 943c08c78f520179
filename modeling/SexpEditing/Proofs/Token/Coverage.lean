import Mathlib.Algebra.Ring.Int.Defs
import SexpEditing.Proofs.Token.Form
import SexpEditing.Proofs.Token.LineStart

/-!
# What tokens cover

The tokens of a text cover it from its start, without gaps. They end before the text does only where
a string or a block comment begins that has no end.

## Main definitions

* `tokensEnd`: where the last token of a text ends
* `OpensString`: a text begins with a string that no unescaped quotation mark ends
* `commentMarkers`, `OpensComment`: a text begins with a block comment whose markers never balance

## Main results

* `unfinished_iff`: the texts without a first lexeme
* `tokenize_covers`: how the tokens cover a text, and where they stop
-/

namespace SexpEditing

open CodeUnit Token

/-! ### Strings and block comments without an end -/

/-- A text begins with a quotation mark, and every further one is escaped. -/
def OpensString (t : Text) : Prop :=
  ∃ rest, t = quotationMark :: rest ∧
    ∀ before after, rest = before ++ quotationMark :: after → escapesNext before = true

/-- The markers of block comments in a text, counted from left to right: one up for each that begins
a comment, and one down for each that ends one. -/
def commentMarkers : Text → List Int
  | slash :: asterisk :: rest => 1 :: commentMarkers rest
  | asterisk :: slash :: rest => -1 :: commentMarkers rest
  | _ :: rest => commentMarkers rest
  | [] => []

/-- A text begins with a block comment, and after no number of markers are as many comments ended
as were begun. -/
def OpensComment (t : Text) : Prop :=
  (∃ rest, t = slash :: asterisk :: rest) ∧ ∀ n, 0 < n → ((commentMarkers t).take n).sum ≠ 0

/-- A string has no end exactly if every quotation mark in it is escaped. -/
theorem stringTail_eq_none_iff {t : Text} : stringTail t = none ↔
    ∀ before after, t = before ++ quotationMark :: after → escapesNext before = true := by
  fun_induction stringTail t with
  | case1 => simp
  | case2 rest => exact iff_of_false (by simp) fun h => Bool.false_ne_true (h [] rest rfl)
  | case3 c rest ih =>
    rw [Option.map_eq_none_iff, ih]
    constructor
    · rintro h (_ | ⟨a, _ | ⟨b, before⟩⟩) after heq
      · cases heq
      · cases heq
        rfl
      · cases heq
        exact (escapesNext_escape c before).trans (h before after rfl)
    · rintro h before after rfl
      rw [← escapesNext_escape c before]
      exact h (backslash :: c :: before) after rfl
  | case4 rest hq hb =>
    -- a backslash alone, and no quotation mark behind it
    refine iff_of_true rfl fun before after heq => ?_
    rcases before with - | ⟨a, before⟩
    · cases heq
    · obtain ⟨-, hrest⟩ := List.cons.inj heq
      cases before with
      | nil => exact (hb _ _ rfl hrest).elim
      | cons b before => exact (hb _ _ rfl hrest).elim
  | case5 c rest hq hb hc ih =>
    rw [Option.map_eq_none_iff, ih]
    constructor
    · rintro h (_ | ⟨a, before⟩) after heq
      · cases heq
        exact (hq rfl).elim
      · cases heq
        rw [escapesNext_cons hc]
        exact h before after rfl
    · rintro h before after rfl
      rw [← escapesNext_cons hc]
      exact h (c :: before) after rfl

theorem forall_sum_take_cons {m d : Int} {ms : List Int} (hd : d ≠ 0) :
    (∀ n, ((m :: ms).take n).sum + d ≠ 0) ↔ ∀ n, (ms.take n).sum + (m + d) ≠ 0 := by
  rw [← Nat.and_forall_add_one, and_iff_right (by simpa using hd)]
  refine forall_congr' fun n => ?_
  rw [List.take_succ_cons, List.sum_cons, Int.add_assoc, Int.add_left_comm]

/-- A block comment has no end exactly if its markers do not end it and those around it. -/
theorem blockCommentTail_eq_none_iff {depth : Nat} {t : Text} : blockCommentTail depth t = none ↔
    ∀ n, ((commentMarkers t).take n).sum + (depth + 1) ≠ 0 := by
  fun_induction blockCommentTail depth t with
  | case1 depth rest ih =>
    have hm := commentMarkers.eq_1 rest
    have hd : ((depth + 1 : Nat) : Int) + 1 = 1 + (depth + 1) := by omega
    rw [Option.map_eq_none_iff, ih, hm, forall_sum_take_cons (by omega), hd]
  | case2 rest =>
    have hm := commentMarkers.eq_2 rest
    refine iff_of_false (by simp) fun h => h 1 ?_
    rw [hm]
    simp
  | case3 rest outer ih =>
    have hm := commentMarkers.eq_2 rest
    have hd : -1 + (((outer + 1 : Nat) : Int) + 1) = outer + 1 := by omega
    rw [Option.map_eq_none_iff, ih, hm, forall_sum_take_cons (by omega), hd]
  | case4 depth c rest ho hc ih =>
    have hm : commentMarkers (c :: rest) = commentMarkers rest := commentMarkers.eq_3 c rest ho hc
    rw [Option.map_eq_none_iff, ih, hm]
  | case5 depth =>
    refine iff_of_true rfl fun n => ?_
    rw [commentMarkers, List.take_nil, List.sum_nil]
    omega

/-- **The texts without a first lexeme** begin with a string or a block comment that has no end. -/
theorem unfinished_iff {t : Text} : Unfinished t ↔ OpensString t ∨ OpensComment t := by
  have hcomment (rest : Text) : nextLexeme (slash :: asterisk :: rest) = none ↔
      OpensComment (slash :: asterisk :: rest) := by
    have hn : nextLexeme (slash :: asterisk :: rest) =
        (blockCommentTail 0 rest).map fun split =>
          (⟨.comment, slash :: asterisk :: split.1⟩, split.2) := rfl
    have hm : commentMarkers (slash :: asterisk :: rest) = 1 :: commentMarkers rest :=
      commentMarkers.eq_1 rest
    rw [hn, Option.map_eq_none_iff, blockCommentTail_eq_none_iff, OpensComment,
      and_iff_right ⟨rest, rfl⟩, hm]
    -- the first marker begins the comment
    have hsum (n : Nat) : ((1 :: commentMarkers rest).take (n + 1)).sum =
        ((commentMarkers rest).take n).sum + ((0 : Nat) + 1) := by
      rw [List.take_succ_cons, List.sum_cons, Int.add_comm]
      rfl
    constructor
    · rintro h (_ | n) hn
      · omega
      · rw [hsum]
        exact h n
    · intro h n
      rw [← hsum]
      exact h (n + 1) (Nat.succ_pos n)
  have hstring (rest : Text) : nextLexeme (quotationMark :: rest) = none ↔
      OpensString (quotationMark :: rest) := by
    have hn : nextLexeme (quotationMark :: rest) =
        (stringTail rest).map fun split => (⟨.string, quotationMark :: split.1⟩, split.2) := rfl
    rw [hn, Option.map_eq_none_iff, stringTail_eq_none_iff]
    exact ⟨fun h => ⟨rest, rfl, h⟩, fun ⟨_, hrest, h⟩ => (List.cons.inj hrest).2 ▸ h⟩
  constructor
  · rintro ⟨hn, hne⟩
    have hn' := hn
    revert hn
    fun_cases nextLexeme t with
    | case1 => exact absurd rfl hne
    | case2 rest => exact fun _ => .inr ((hcomment rest).mp hn')
    | case8 rest => exact fun _ => .inl ((hstring rest).mp hn')
    | case3 | case4 | case5 | case6 | case7 | case9 | case10 =>
      intro hn
      cases hn
  · rintro (⟨rest, rfl, h⟩ | h)
    · exact ⟨(hstring rest).mpr ⟨rest, rfl, h⟩, List.cons_ne_nil _ _⟩
    · obtain ⟨rest, rfl⟩ := h.1
      exact ⟨(hcomment rest).mpr h, List.cons_ne_nil _ _⟩

/-! ### How tokens cover a text -/

/-- The offset at which the last token of a text ends. -/
def tokensEnd (t : Text) : Int := ((tokenize t).getLast?.map Token.stop).getD 0

theorem tokensEnd_eq (t : Text) :
    tokensEnd t = ((lexemes t).flatMap fun l => l.text).length := by
  rw [tokensEnd, tokenize, getLast?_layOut, Int.zero_add]

/-! ### All tokens of a text -/

theorem isChain_layOut (start : Int) (ls : List Lexeme) :
    (Lexeme.layOut start ls).IsChain fun u v => u.stop = v.start := by
  induction ls generalizing start with
  | nil => exact .nil
  | cons l ls ih =>
    rw [Lexeme.layOut_cons]
    refine (ih _).cons fun v hv => ?_
    cases ls with
    | nil => cases hv
    | cons m ls =>
      obtain rfl := Option.some.inj hv
      rfl

/-- Which tokens never stand next to each other: white space and white space, an atom and an atom,
and an atom and a mark behind it. -/
theorem Lexeme.Adjoins.kinds {l m : Lexeme} (h : l.Adjoins m) :
    ¬ (l.kind = .space ∧ m.kind = .space) ∧ ¬ (l.kind = .atom ∧ m.kind = .atom) ∧
      ¬ (l.kind = .atom ∧ m.kind = .mark) := by
  unfold Lexeme.Adjoins at h
  cases hk : l.kind with
  | space => simpa [hk] using h
  | atom =>
    rw [hk] at h
    simp [h.1, h.2.1]
  | comment | opener | closer | mark | string => simp

/-- **How the tokens cover a text.** They are not empty, they hold the text of their ranges, the
first one starts at the start of the text and each further one where the one before it ends. Two
that could be one never stand next to each other. If the last one ends before the text does, a
string or a block comment without an end begins there. -/
theorem tokenize_covers (t : Text) :
    (∀ u ∈ tokenize t, u.start < u.stop ∧ u.stop ≤ t.length ∧ t.slice u.start u.stop = u.text) ∧
      (∀ u ∈ (tokenize t).head?, u.start = 0) ∧
      (tokenize t).IsChain (fun u v => u.stop = v.start) ∧
      (tokenize t).IsChain (fun u v => ¬ (u.kind = .space ∧ v.kind = .space) ∧
        ¬ (u.kind = .atom ∧ v.kind = .atom) ∧ ¬ (u.kind = .atom ∧ v.kind = .mark)) ∧
      (tokensEnd t < t.length →
        OpensString (t.drop (tokensEnd t).toNat) ∨ OpensComment (t.drop (tokensEnd t).toNat)) := by
  refine ⟨fun u hu => ?_, fun u hu => ?_, isChain_layOut 0 (lexemes t), ?_, fun hend => ?_⟩
  · obtain ⟨before, after, rfl, hstart, hstop⟩ := exists_around_of_mem_tokenize hu
    refine ⟨(ordered_tokenize _).start_lt_stop u hu, ?_, ?_⟩
    · simp only [List.length_append]
      omega
    · rw [hstop, hstart, Text.slice_append]
  · cases hls : lexemes t with
    | nil =>
      rw [tokenize, hls] at hu
      cases hu
    | cons l ls =>
      rw [tokenize, hls] at hu
      obtain rfl := Option.some.inj hu
      rfl
  · have hkinds := (isChain_lexemes t).imp fun _ _ h => Lexeme.Adjoins.kinds h
    rwa [← Lexeme.map_toLexeme_layOut 0 (lexemes t), List.isChain_map] at hkinds
  · obtain ⟨rest, hrest, hnone⟩ := exists_flatMap_lexemes_append t
    have hlen := congrArg List.length hrest
    rw [List.length_append] at hlen
    rw [tokensEnd_eq] at hend ⊢
    have hdrop := congrArg (List.drop ((lexemes t).flatMap fun l => l.text).length) hrest
    rw [List.drop_left] at hdrop
    rw [Int.toNat_natCast, ← hdrop]
    refine unfinished_iff.mp ⟨hnone, List.length_pos_iff.mp ?_⟩
    omega

end SexpEditing
