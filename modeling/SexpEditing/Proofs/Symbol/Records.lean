import SexpEditing.Proofs.Expr.Delimiters
import SexpEditing.Proofs.Token.Coverage
import SexpEditing.Symbol.Declarations

/-!
# Declaration files that are cut off

What is wrong with a declaration file shows in the number of its expressions that are no records: a
list without an end, a stray delimiter and a mark that quotes nothing are expressions too. A string
or a block comment without an end is none, and the tokens stop before it. In a list it leaves the
list open, but between records it leaves no trace, and all that follows is passed over.

## Main definitions

* `Expr.IsRecord`: a closed list that begins with a name
* `Declarations.CutOff`: a string or a block comment without an end follows the records of a text

## Main results

* `Expr.isSome_recordName?_iff`: the expressions that declare a name
* `tokensEnd_eq_length_iff`: the texts that tokens cover
* `Declarations.nothing_skipped_iff`: the texts of which nothing is passed over unnoticed
* `Declarations.passes_over_comment`: a text of which something is
-/

namespace SexpEditing

namespace Expr

/-- A closed list whose first item is an atom, or a string that is not empty. -/
inductive IsRecord : Expr → Prop
  | atom {opener name closer : Token} {rest : List Expr} :
      IsRecord (.list opener (.atom name :: rest) (some closer))
  | string {opener name closer : Token} {rest : List Expr} (h : stringValue name.text ≠ []) :
      IsRecord (.list opener (.string name :: rest) (some closer))

/-- A name that is read from a closed list counts if it is not empty. -/
theorem isSome_recordName?_of_nextName? {opener closer : Token} {items : List Expr} {name : Text}
    (h : (Reader.nextName? (Lookahead.ofList items)).1 = some name) :
    (list opener items (some closer)).recordName?.isSome = true ↔ name ≠ [] := by
  rw [recordName?, h]
  cases name <;> simp

/-- **The expressions that declare a name.** -/
theorem isSome_recordName?_iff {e : Expr} (htext : ∀ u ∈ e.tokens, u.text ≠ []) :
    e.recordName?.isSome = true ↔ e.IsRecord := by
  constructor
  · intro h
    cases e with
    | list opener items closer =>
      cases closer with
      | none => cases h
      | some closer =>
        cases items with
        | nil => cases h
        | cons first rest =>
          cases first with
          | atom name => exact .atom
          | string name => exact .string ((isSome_recordName?_of_nextName? rfl).mp h)
          | list => cases h
          | quoted => cases h
          | stray => cases h
    | quoted => cases h
    | atom => cases h
    | string => cases h
    | stray => cases h
  · rintro (_ | hvalue)
    · exact (isSome_recordName?_of_nextName? rfl).mpr (htext _ (by simp [tokens]))
    · exact (isSome_recordName?_of_nextName? rfl).mpr hvalue

end Expr

/-- **The texts that tokens cover** are those in which no string and no block comment without an end
begins where the tokens end. -/
theorem tokensEnd_eq_length_iff (t : Text) :
    tokensEnd t = t.length ↔ ¬ Unfinished (t.drop (tokensEnd t).toNat) := by
  obtain ⟨rest, hrest, hnone⟩ := Token.exists_flatMap_lexemes_append t
  have hlength := congrArg List.length hrest
  have hdrop := congrArg (List.drop ((lexemes t).flatMap fun l => l.text).length) hrest
  rw [List.drop_left] at hdrop
  rw [List.length_append] at hlength
  rw [tokensEnd_eq, Int.toNat_natCast, ← hdrop, Unfinished, and_iff_right hnone, not_not,
    ← List.length_eq_zero_iff]
  omega

namespace Declarations

/-- The expressions of a text are records, and where its tokens end, a string or a block comment
begins that has no end. -/
def CutOff (t : Text) (exprs : List Expr) : Prop :=
  (∀ e ∈ exprs, e.IsRecord) ∧
    (OpensString (t.drop (tokensEnd t).toNat) ∨ OpensComment (t.drop (tokensEnd t).toNat))

theorem skipped_eq_zero_iff {t : Text} {exprs : List Expr} (h : Expr.ofText t = .ok exprs)
    (starts : List Text) : (ofExprs exprs starts).skipped = 0 ↔ ∀ e ∈ exprs, e.IsRecord := by
  obtain ⟨es, hes, htokens, -⟩ := Expr.exists_ofText t
  obtain rfl := Except.ok.inj (h.symm.trans hes)
  -- the tokens of the expressions are tokens of the text, and none of these is empty
  have htext (e : Expr) (he : e ∈ exprs) (u : Token) (hu : u ∈ e.tokens) : u.text ≠ [] := by
    have hmem : u ∈ significantTokens t := htokens ▸ Expr.mem_tokensOf.mpr ⟨e, he, hu⟩
    exact Token.text_ne_nil_of_mem_lexemes (mem_of_mem_layOut (List.mem_of_mem_filter hmem))
  rw [ofExprs, List.countP_eq_zero]
  refine forall₂_congr fun e he => ?_
  rw [← Expr.isSome_recordName?_iff (htext e he), Option.isNone_iff_eq_none, ← ne_eq,
    Option.isSome_iff_ne_none]

/-- **What is passed over.** Every text is read. No expression is counted as skipped exactly if all
are records. Then the tokens cover the text, unless it is cut off: a string or a block comment
without an end, and all that follows its start, is not counted. -/
theorem nothing_skipped_iff (t : Text) (starts : List Text) :
    ∃ exprs declarations, Expr.ofText t = .ok exprs ∧ ofText t starts = .ok declarations ∧
      (declarations.skipped = 0 ↔ ∀ e ∈ exprs, e.IsRecord) ∧
      ((declarations.skipped = 0 → tokensEnd t = t.length ∧ ∀ e ∈ exprs, e.IsRecord) ↔
        ¬ CutOff t exprs) := by
  obtain ⟨exprs, hexprs, -⟩ := Expr.exists_ofText t
  have hskipped := skipped_eq_zero_iff hexprs starts
  refine ⟨exprs, ofExprs exprs starts, hexprs, ?_, hskipped, ?_⟩
  · rw [ofText, hexprs]
    rfl
  · rw [hskipped, CutOff, ← unfinished_iff, not_and, ← tokensEnd_eq_length_iff]
    exact forall_congr' fun hrecords => and_iff_left hrecords

/-- **A comment without an end**, and the record in it, of which nothing is said. -/
theorem passes_over_comment :
    ¬ ∀ t starts declarations, ofText t starts = .ok declarations → declarations.skipped = 0 →
      tokensEnd t = t.length := by
  intro h
  have hread : ofText (Text.ofString "(a) /* (b)") [] = .ok ⟨[Text.ofString "a"], 0⟩ := by
    decide +kernel
  have hend := h _ _ _ hread rfl
  revert hend
  decide +kernel

end Declarations

end SexpEditing
