import SexpEditing.Proofs.Token.Coverage
import SexpEditing.Proofs.Token.Shift

/-!
# Pieces of a text

A text may be cut where a token starts and where a token ends. What a token ends with never depends
on more of the text than the tokens next to it, so the tokens of the piece are those that stood
there, and they cover all of it.

## Main results

* `lexemes_flatMap_between`: lexemes that stand together in a text are those of what they cover
* `tokenize_slice`, `flatMap_text_tokenize_slice`: the tokens of a piece, and that they cover it
-/

namespace SexpEditing

open Token

/-! ### Laying out parts -/

theorem take_layOut (start : Int) (ls : List Lexeme) (n : Nat) :
    (Lexeme.layOut start ls).take n = Lexeme.layOut start (ls.take n) := by
  induction ls generalizing start n with
  | nil => simp
  | cons l ls ih =>
    cases n with
    | zero => rfl
    | succ n => simp [ih]

theorem drop_layOut (start : Int) (ls : List Lexeme) (n : Nat) :
    (Lexeme.layOut start ls).drop n =
      Lexeme.layOut (start + ((ls.take n).flatMap fun l => l.text).length) (ls.drop n) := by
  induction ls generalizing start n with
  | nil => simp
  | cons l ls ih =>
    cases n with
    | zero => simp
    | succ n => simp [ih, Int.add_assoc]

/-- A token lies between the lexemes before it and those behind it. -/
theorem getElem_layOut (start : Int) (ls : List Lexeme) (i : Nat)
    (hi : i < (Lexeme.layOut start ls).length) :
    (Lexeme.layOut start ls)[i].start =
        start + ((ls.take i).flatMap fun l => l.text).length ∧
      (Lexeme.layOut start ls)[i].stop =
        start + ((ls.take (i + 1)).flatMap fun l => l.text).length := by
  induction ls generalizing start i with
  | nil => cases hi
  | cons l ls ih =>
    cases i with
    | zero => simp [Token.start, Token.stop]
    | succ i => simp [ih, Int.add_assoc]

/-! ### The text between two tokens -/

/-- **Lexemes that stand together** in a text are the lexemes of what they cover. -/
theorem lexemes_flatMap_between {t : Text} {before between after : List Lexeme}
    (h : lexemes t = before ++ between ++ after) :
    lexemes (between.flatMap fun l => l.text) = between := by
  refine lexemes_flatMap_text ?_ fun l hl => ?_
  · have hchain := isChain_lexemes t
    rw [h] at hchain
    exact hchain.left_of_append.right_of_append
  · exact formed_of_mem_lexemes (by rw [h]; simp [hl])

section Piece

variable {t : Text} {i j : Nat} (hi : i < (tokenize t).length) (hj : j < (tokenize t).length)
  (hij : i ≤ j)
include hij

/-- A piece from one token to another has their lexemes, and those between them. -/
theorem exists_slice_eq :
    ∃ between : List Lexeme,
      t.slice (tokenize t)[i].start (tokenize t)[j].stop = (between.flatMap fun l => l.text) ∧
      lexemes (between.flatMap fun l => l.text) = between ∧
      Lexeme.layOut (tokenize t)[i].start between = (tokenize t).extract i (j + 1) := by
  have hstart : (tokenize t)[i].start = _ :=
    (getElem_layOut 0 (lexemes t) i hi).1
  have hstop : (tokenize t)[j].stop = _ := (getElem_layOut 0 (lexemes t) j hj).2
  rw [Int.zero_add] at hstart hstop
  have htake : (lexemes t).take (j + 1) =
      (lexemes t).take i ++ (lexemes t).extract i (j + 1) := by
    rw [List.extract_eq_take_drop, ← List.take_add, Nat.add_sub_cancel' (by omega)]
  have hsplit : lexemes t = (lexemes t).take i ++ (lexemes t).extract i (j + 1) ++
      (lexemes t).drop (j + 1) := by
    rw [← htake, List.take_append_drop]
  obtain ⟨rest, hrest, -⟩ := exists_flatMap_lexemes_append t
  refine ⟨(lexemes t).extract i (j + 1), ?_, lexemes_flatMap_between hsplit, ?_⟩
  · rw [hsplit, List.flatMap_append, List.flatMap_append, List.append_assoc] at hrest
    have hpiece := Text.slice_append (((lexemes t).take i).flatMap fun l => l.text)
      (((lexemes t).extract i (j + 1)).flatMap fun l => l.text)
      ((((lexemes t).drop (j + 1)).flatMap fun l => l.text) ++ rest)
    rwa [hrest, ← Int.natCast_add, ← List.length_append, ← List.flatMap_append, ← htake, ← hstart,
      ← hstop] at hpiece
  · rw [hstart, tokenize, List.extract_eq_take_drop, List.extract_eq_take_drop, drop_layOut,
      take_layOut, Int.zero_add]

/-- **The tokens of a piece** are those that stand there. -/
theorem tokenize_slice :
    tokenize (t.slice (tokenize t)[i].start (tokenize t)[j].stop) =
      ((tokenize t).extract i (j + 1)).map (Token.shift (-(tokenize t)[i].start)) := by
  obtain ⟨between, hslice, hlexemes, hlay⟩ := exists_slice_eq hi hj hij
  rw [← hlay, ← layOut_add, hslice, tokenize, hlexemes, Int.add_right_neg]

/-- **The tokens of a piece cover it.** -/
theorem flatMap_text_tokenize_slice :
    ((tokenize (t.slice (tokenize t)[i].start (tokenize t)[j].stop)).flatMap fun u => u.text) =
      t.slice (tokenize t)[i].start (tokenize t)[j].stop := by
  obtain ⟨between, hslice, hlexemes, -⟩ := exists_slice_eq hi hj hij
  have hmap := Lexeme.map_toLexeme_layOut 0 between
  rw [hslice, tokenize, hlexemes]
  conv => rhs; rw [← hmap, List.flatMap_map]

theorem tokensEnd_slice :
    tokensEnd (t.slice (tokenize t)[i].start (tokenize t)[j].stop) =
      (t.slice (tokenize t)[i].start (tokenize t)[j].stop).length := by
  obtain ⟨between, hslice, hlexemes, -⟩ := exists_slice_eq hi hj hij
  rw [tokensEnd_eq, hslice, hlexemes]

end Piece

end SexpEditing
