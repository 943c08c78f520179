import SexpEditing.Proofs.Sexp.Children

/-!
# Contexts

The walk out of the lists that enclose a cursor, unit by unit, against the stack that one reading of
the text from left to right leaves: as long as the steps suffice both name the same lists, and with
fewer steps the walk may miss a list but never names another one.

## Main definitions

* `Context.IsPlaceIn`: what a context has to say about a list and a cursor

## Main results

* `Navigator.upList_and_contexts`: the lists around a cursor, and its places in the innermost two
-/

namespace SexpEditing

open CodeUnit Matching Token

/-- A context tells where in a document an opening delimiter stands, what comes first in the list
that it opens, and how many children of the list end before a cursor, up to a limit on steps. -/
structure Context.IsPlaceIn (c : Context) (d : Document) (opener : Token) (cursor : Int)
    (maxSteps : Nat) : Prop where
  start_eq : c.start = opener.start
  /-- The line holds the delimiter, at the column. -/
  line_column : ∃ lineStart : Nat, d.lineStart c.line = .ok lineStart ∧
    lineStart + c.column = c.start ∧ 0 ≤ c.column ∧ lineFeed ∉ d.readRange lineStart c.start
  head_eq : c.head =
    (((significantTokens d.text).find? fun t => opener.stop ≤ t.start).filter
      fun t => t.is .atom).map (·.text)
  argIndex_eq : c.argIndex =
    (min maxSteps (childrenBefore (significantTokens d.text) opener cursor) : Nat)

theorem mem_significantTokens {t : Text} {u : Token} (h : u ∈ significantTokens t) :
    u ∈ tokenize t :=
  (List.mem_filter.mp h).1

namespace Navigator

/-- The context that a navigator gives for an opening delimiter of its document. -/
theorem isPlaceIn_contextIn (d : Document) (maxSteps : Nat) {opener : Token}
    (hm : opener ∈ significantTokens d.text) (hk : opener.kind = .opener) (cursor : Int) :
    ((ofDocument d maxSteps).contextIn opener cursor).IsPlaceIn d opener cursor maxSteps := by
  have h := shows_ofDocument d maxSteps
  obtain ⟨o, ho, rfl⟩ := List.getElem_of_mem hm
  obtain ⟨before, after, htext, hstart, -⟩ :=
    exists_around_of_mem_tokenize (mem_significantTokens hm)
  have hle : before.length ≤ d.text.length := by
    rw [htext]
    simp only [List.length_append]
    omega
  constructor
  · rfl
  · have hline := d.exists_lineStart_of_le hle
    rw [← hstart] at hline
    exact hline
  · rw [h.head_contextIn ho, h.ordered.find?_stop_le ho]
  · exact h.argIndex_contextIn ho hk cursor

/-- Every token of the stack is an opening delimiter of the text. -/
theorem opener_of_enclosingOpeners {t : Text} {offset : Int} {k : Nat} {opener : Token}
    (h : (enclosingOpeners t offset)[k]? = some opener) :
    opener ∈ significantTokens t ∧ opener.kind = .opener := by
  rw [enclosingOpeners_getElem?] at h
  obtain ⟨o, hstack, ht⟩ := Option.bind_eq_some_iff.mp h
  obtain ⟨ho, rfl⟩ := List.getElem?_eq_some_iff.mp ht
  refine ⟨List.getElem_mem ho, ?_⟩
  have hkind := opener_of_mem_unclosedAt (List.mem_of_getElem? hstack)
  simpa [ho] using hkind

/-- Below the top of the stack lie the openers around the one on top. -/
theorem enclosingOpeners_start {t : Text} {offset : Int} {opener : Token}
    (h : (enclosingOpeners t offset)[0]? = some opener) (k : Nat) :
    (enclosingOpeners t opener.start)[k]? = (enclosingOpeners t offset)[k + 1]? := by
  rw [enclosingOpeners_getElem?] at h
  obtain ⟨o, hstack, ht⟩ := Option.bind_eq_some_iff.mp h
  obtain ⟨ho, rfl⟩ := List.getElem?_eq_some_iff.mp ht
  obtain ⟨outer, hcons⟩ := List.head?_eq_some_iff.mp (by rw [List.head?_eq_getElem?, hstack])
  rw [enclosingOpeners_getElem?, enclosingOpeners_getElem?,
    (ordered_significantTokens t).countBefore_start ho, hcons, List.getElem?_cons_succ,
    (eq_of_unclosedAt_eq_cons hcons).2.2]

/-- **The lists around a cursor.** A walk of more steps than there are significant tokens finds the
openers of the stack, and a shorter one finds the same or nothing. The contexts of the cursor are
its places in the innermost list and in the list around that. -/
theorem upList_and_contexts (d : Document) (maxSteps : Nat) (offset : Int) :
    (∀ levels : Nat, 1 ≤ levels →
      ((significantTokens d.text).length < maxSteps →
        (ofDocument d maxSteps).upList offset levels =
          (enclosingOpeners d.text offset)[levels - 1]?) ∧
      ((ofDocument d maxSteps).upList offset levels =
          (enclosingOpeners d.text offset)[levels - 1]? ∨
        (ofDocument d maxSteps).upList offset levels = none)) ∧
    (∀ c, ((ofDocument d maxSteps).contexts offset).current = some c →
      ∃ opener, (enclosingOpeners d.text offset)[0]? = some opener ∧
        c.IsPlaceIn d opener offset maxSteps) ∧
    (∀ c, ((ofDocument d maxSteps).contexts offset).parent = some c →
      ∃ opener, (enclosingOpeners d.text offset)[1]? = some opener ∧
        c.IsPlaceIn d opener offset maxSteps) ∧
    ((significantTokens d.text).length < maxSteps →
      ((ofDocument d maxSteps).contexts offset).current.isSome =
        (enclosingOpeners d.text offset)[0]?.isSome ∧
      ((ofDocument d maxSteps).contexts offset).parent.isSome =
        (enclosingOpeners d.text offset)[1]?.isSome) := by
  have h := shows_ofDocument d maxSteps
  -- the walk never names a list that the stack does not hold
  have hsound {offset : Int} {levels : Nat} {opener : Token}
      (hu : (ofDocument d maxSteps).upList offset (levels + 1) = some opener) :
      (enclosingOpeners d.text offset)[levels]? = some opener := by
    rw [enclosingOpeners_getElem?]
    exact h.of_upList_eq_some hu
  have hcomplete (hs : (significantTokens d.text).length < maxSteps) (offset : Int)
      (levels : Nat) : (ofDocument d maxSteps).upList offset (levels + 1) =
        (enclosingOpeners d.text offset)[levels]? := by
    rw [enclosingOpeners_getElem?]
    exact h.upList_eq hs offset levels
  have hplace {opener : Token} {offset : Int} {k : Nat} (cursor : Int)
      (ho : (enclosingOpeners d.text offset)[k]? = some opener) :
      ((ofDocument d maxSteps).contextIn opener cursor).IsPlaceIn d opener cursor maxSteps :=
    isPlaceIn_contextIn d maxSteps (opener_of_enclosingOpeners ho).1
      (opener_of_enclosingOpeners ho).2 cursor
  refine ⟨?_, ?_, ?_, ?_⟩
  · intro levels hlevels
    obtain ⟨levels, rfl⟩ : ∃ n, levels = n + 1 := ⟨levels - 1, by omega⟩
    rw [Nat.add_sub_cancel]
    refine ⟨fun hs => hcomplete hs offset levels, ?_⟩
    cases hu : (ofDocument d maxSteps).upList offset (levels + 1) with
    | none => exact .inr rfl
    | some opener => exact .inl (hsound hu).symm
  · intro c hc
    rw [contexts] at hc
    split at hc
    · cases hc
    · next opener hu =>
      cases hc
      exact ⟨opener, hsound hu, hplace offset (hsound hu)⟩
  · intro c hc
    rw [contexts] at hc
    split at hc
    · cases hc
    · next opener hu =>
      obtain ⟨outer, hu', rfl⟩ := Option.map_eq_some_iff.mp hc
      refine ⟨outer, ?_, hplace offset (hsound hu')⟩
      rw [← enclosingOpeners_start (hsound hu), hsound hu']
  · intro hs
    rw [contexts, hcomplete hs offset 0]
    cases ho : (enclosingOpeners d.text offset)[0]? with
    | none =>
      have hnil : enclosingOpeners d.text offset = [] := by
        cases hl : enclosingOpeners d.text offset with
        | nil => rfl
        | cons a l => simp [hl] at ho
      simp [hnil]
    | some opener =>
      simp only [Option.isSome_some, Option.isSome_map, true_and]
      rw [hcomplete hs opener.start 0, enclosingOpeners_start ho]

end Navigator

end SexpEditing
