import SexpEditing.Proofs.Indent.Closers
import SexpEditing.Proofs.Sexp.Children

/-!
# What the edits for a line depend on

The edits that indent a line read the columns of opening delimiters above it, and nothing else that
indenting can change. As long as the lines above that hold opening delimiters keep their blanks, the
line gets the same edits, wherever it stands itself.

## Main definitions

* `Document.KeepsAbove`: the lines above a line that hold opening delimiters stay as they are
* `Context.withoutStart`: what the rules see of a context

## Main results

* `Document.KeepsAbove.closerColumnAt_eq`: lines of closing delimiters get the same column
* `Document.KeepsAbove.ruleColumn_eq`: the rules give the same column
* `Document.KeepsAbove.editsFor_eq`: a line gets the same edits
-/

namespace SexpEditing

open CodeUnit Token

/-! ### What the rules see -/

/-- What the rules see of a context. -/
def Context.withoutStart (c : Context) : Context := { c with start := 0 }

theorem Context.headIn_withoutStart (context : Option Context) (forms : List Text) :
    Context.headIn (context.map Context.withoutStart) forms =
      (Context.headIn context forms).map fun found => (found.1.withoutStart, found.2) := by
  cases context with
  | none => rfl
  | some c =>
    show (c.head.bind fun head =>
        if forms.contains head then some (c.withoutStart, head) else none) =
      (c.head.bind fun head => if forms.contains head then some (c, head) else none).map _
    cases c.head with
    | none => rfl
    | some head =>
      rw [Option.bind_some, Option.bind_some]
      split <;> rfl

/-- What the rules see of their input. -/
def IndentInput.withoutStart (input : IndentInput) : IndentInput :=
  { input with
    current := input.current.map Context.withoutStart
    parent := input.parent.map Context.withoutStart }

/-- **No rule looks at offsets.** -/
theorem IndentRule.apply_withoutStart {rule : IndentRule} (h : rule ∈ IndentRule.all)
    (input : IndentInput) : rule.apply input.withoutStart = rule.apply input := by
  obtain ⟨current, parent, line, table⟩ := input
  simp only [IndentRule.all, List.mem_cons, List.not_mem_nil, or_false] at h
  rcases h with rfl | rfl | rfl | rfl | rfl | rfl | rfl | rfl | rfl
  case inl | inr.inr.inr.inr.inr.inr.inr.inr =>
    cases current <;> rfl
  case inr.inr.inr.inr.inr.inr.inr.inl =>
    cases current <;> cases parent <;> rfl
  all_goals
    simp only [IndentInput.withoutStart, block, bindingList, parameterList, docstring, classSlots,
      wrapping, Context.headIn_withoutStart, Option.bind_eq_bind, Option.bind_map]
    rfl

theorem IndentInput.column_withoutStart (input : IndentInput) :
    input.withoutStart.column = input.column := by
  have hfind : (IndentRule.all.findSome? fun rule =>
        (rule.apply input.withoutStart).map fun column => (rule.name, column)) =
      IndentRule.all.findSome? fun rule =>
        (rule.apply input).map fun column => (rule.name, column) := by
    -- the induction is on a part of the table, of which only its rules are known
    generalize hrules : IndentRule.all = rules
    have hsub : ∀ rule ∈ rules, rule ∈ IndentRule.all := by simp [hrules]
    clear hrules
    induction rules with
    | nil => rfl
    | cons rule rules ih =>
      rw [List.findSome?_cons, List.findSome?_cons,
        IndentRule.apply_withoutStart (hsub rule (by simp)), ih fun r hr => hsub r (by simp [hr])]
  rw [IndentInput.column, IndentInput.column, IndentRule.select, IndentRule.select, hfind]

namespace Document

/-- Indenting left the tokens in their places, and those lines above a line that hold opening
delimiters as they were. -/
structure KeepsAbove (d d' : Document) (line : Nat) : Prop where
  reindents : d.Reindents d'
  placed_eq : d'.placed = d.placed
  line_eq : ∀ j < line, ∀ l, d.lines[j]? = some l → leftParen ∈ l → d'.lines[j]? = some l

namespace KeepsAbove

variable {d d' : Document} {k : Nat}

theorem mono (h : d.KeepsAbove d' k) {j : Nat} (hj : j ≤ k) : d.KeepsAbove d' j where
  reindents := h.reindents
  placed_eq := h.placed_eq
  line_eq i hi := h.line_eq i (Nat.lt_of_lt_of_le hi hj)

section

variable (h : d.KeepsAbove d' k)
include h

/-- An opening delimiter above the line keeps its line and its column. -/
theorem columnAt_eq {i : Nat} (hi : i < (significantTokens d.text).length)
    (hi' : i < (significantTokens d'.text).length)
    (hkind : (significantTokens d.text)[i].kind = .opener)
    (hline : d.lineAt (significantTokens d.text)[i].start < k) :
    d'.lineAt (significantTokens d'.text)[i].start = d.lineAt (significantTokens d.text)[i].start ∧
      d'.columnAt (significantTokens d'.text)[i].start =
        d.columnAt (significantTokens d.text)[i].start := by
  have hplace := (getElem_of_placed_eq h.placed_eq hi hi').2
  refine ⟨congrArg Prod.fst hplace, ?_⟩
  -- an opener is never in the blanks of its line, so its line is one that is kept
  obtain ⟨n, j, hj, hn, hle, hplace₀, -, hunit⟩ :=
    d.exists_line_of_opener (List.getElem_mem hi) hkind
  obtain ⟨n', hn', hle'⟩ := exists_start_of_mem_significantTokens (List.getElem_mem hi')
  have hjk : (j : Int) < k := by
    rw [hn] at hline
    have hfst : d.lineAt n = j := congrArg Prod.fst hplace₀
    rwa [hfst] at hline
  have hsame := h.line_eq j (by omega) _ (List.getElem?_eq_getElem hj) (List.mem_of_getElem? hunit)
  rw [hn, hn'] at hplace
  rw [hn, hn', d.columnAt_eq hle, d'.columnAt_eq hle', hplace, hplace₀]
  simp only [Int.toNat_natCast]
  rw [hsame, List.getElem?_eq_getElem hj]

theorem body_eq (hk : k < d.lines.length) (hk' : k < d'.lines.length) :
    d'.lines[k].body = d.lines[k].body :=
  h.reindents.body_eq hk hk'

/-- **The column of a line of closing delimiters** stays. -/
theorem closerColumnAt_eq (maxSteps : Nat) (hk : k < d.lines.length) :
    d'.closerColumnAt maxSteps k = d.closerColumnAt maxSteps k := by
  have hk' := h.reindents.lt_length hk
  have hbody := h.body_eq hk hk'
  have hlen := length_eq_of_placed_eq h.placed_eq
  rw [d.closerColumnAt_eq_map maxSteps hk, d'.closerColumnAt_eq_map maxSteps hk', hbody]
  cases hs : splitClosers (dropFinalReturn d.lines[k].body) with
  | none => rfl
  | some split =>
    obtain ⟨width, rest⟩ := split
    -- what is before the closers is blanks, so the closers are tokens of the body
    obtain ⟨front, hcore, rfl, hfront⟩ := of_splitClosers hs
    obtain ⟨r, hr, -⟩ := exists_dropFinalReturn_append d.lines[k].body
    rw [hcore, List.append_assoc] at hr
    have hx : front.length ≤ d.lines[k].body.length := by
      rw [hr, List.length_append]
      omega
    simp only [Option.bind_some]
    rw [countBefore_eq_of_placed_eq h.placed_eq hk hk' hx (by rw [hbody]; exact hx),
      kinds_eq_of_placed_eq h.placed_eq]
    cases hu : Span.before ((significantTokens d.text).map (·.kind))
        (countBefore (significantTokens d.text) (d.bodyStart k + front.length)) with
    | none => rfl
    | some u =>
      rw [Option.bind_some, Option.bind_some]
      cases hd : u.delimiters with
      | none => rfl
      | some delimiters =>
        obtain ⟨o, c⟩ := delimiters
        obtain ⟨hkind, hlt⟩ := Span.opener_of_before hu hd
        have ho : o < (significantTokens d.text).length := by
          simpa using (List.getElem?_eq_some_iff.mp hkind).1
        have ho' : o < (significantTokens d'.text).length := by omega
        have hkind : (significantTokens d.text)[o].kind = .opener := by simpa [ho] using hkind
        rw [(ordered_significantTokens d.text).lt_countBefore_iff ho] at hlt
        -- no opener stands among the closers: the one found is above the line
        have hline := d.lineAt_lt_of_opener (List.getElem_mem ho) hkind hk hr hfront hlt
        simp only [Option.bind_some, List.getElem?_eq_getElem ho, List.getElem?_eq_getElem ho',
          Option.map_some]
        rw [(h.columnAt_eq ho ho' hkind hline).2]

end

theorem alignAbove_eq (h : d.KeepsAbove d' k) (maxSteps steps : Nat) (hk : k ≤ d.lines.length) :
    d'.alignAbove maxSteps steps k = d.alignAbove maxSteps steps k := by
  induction steps generalizing k with
  | zero => cases k <;> rfl
  | succ steps ih =>
    cases k with
    | zero => rfl
    | succ k =>
      have hk' := h.reindents.lt_length hk
      have h := h.mono (Nat.le_succ k)
      rw [alignAbove, alignAbove, isBareCloserLine_lineOf d hk, isBareCloserLine_lineOf d' hk',
        h.body_eq hk hk', h.closerColumnAt_eq maxSteps hk, ih h (Nat.le_of_lt hk)]

theorem alignment_eq (h : d.KeepsAbove d' k) (maxSteps steps : Nat) (hk : k < d.lines.length) :
    d'.alignment maxSteps steps k = d.alignment maxSteps steps k := by
  have hk' := h.reindents.lt_length hk
  rw [alignment, alignment, isCloserLine_lineOf d hk, isCloserLine_lineOf d' hk',
    h.body_eq hk hk', h.closerColumnAt_eq maxSteps hk,
    h.alignAbove_eq maxSteps steps (Nat.le_of_lt hk)]

/-! ### The column that the rules give -/

section Contexts

variable (h : d.KeepsAbove d' k) {cursor cursor' : Int}
  (hended : countEnded (significantTokens d'.text) (cursor' - 1) =
    countEnded (significantTokens d.text) (cursor - 1))
include h hended

/-- A list that is opened above the line looks the same to the rules. -/
theorem withoutStart_contextIn_eq (maxSteps : Nat) {i : Nat}
    (hi : i < (significantTokens d.text).length) (hi' : i < (significantTokens d'.text).length)
    (hkind : (significantTokens d.text)[i].kind = .opener)
    (hline : d.lineAt (significantTokens d.text)[i].start < k) :
    ((Navigator.ofDocument d' maxSteps).contextIn (significantTokens d'.text)[i]
        cursor').withoutStart =
      ((Navigator.ofDocument d maxSteps).contextIn (significantTokens d.text)[i]
        cursor).withoutStart := by
  have hs := Navigator.shows_ofDocument d maxSteps
  have hs' := Navigator.shows_ofDocument d' maxSteps
  obtain ⟨hlineAt, hcolumnAt⟩ := h.columnAt_eq hi hi' hkind hline
  have hkinds := kinds_eq_of_placed_eq h.placed_eq
  -- the head is the token after the opener, wherever that has moved
  have hhead : ((Navigator.ofDocument d' maxSteps).contextIn (significantTokens d'.text)[i]
      cursor').head = ((Navigator.ofDocument d maxSteps).contextIn (significantTokens d.text)[i]
      cursor).head := by
    have hlen := length_eq_of_placed_eq h.placed_eq
    rw [hs'.head_contextIn hi', hs.head_contextIn hi]
    by_cases hn : i + 1 < (significantTokens d.text).length
    · have hn' : i + 1 < (significantTokens d'.text).length := by omega
      have hlexeme := (getElem_of_placed_eq h.placed_eq hn hn').1
      rw [List.getElem?_eq_getElem hn, List.getElem?_eq_getElem hn']
      simp only [Option.filter_some, Token.is, hlexeme]
      split
      · rw [Option.map_some, Option.map_some, hlexeme]
      · rfl
    · rw [List.getElem?_eq_none (by omega), List.getElem?_eq_none (by omega)]
  -- siblings are counted over tokens, and as many have ended
  have hindex : (Navigator.ofDocument d' maxSteps).countSiblings cursor' maxSteps
        (significantTokens d'.text)[i].stop =
      (Navigator.ofDocument d maxSteps).countSiblings cursor maxSteps
        (significantTokens d.text)[i].stop := by
    rw [hs'.countSiblings_eq, hs.countSiblings_eq, hs'.ordered.countEnded_stop,
      hs.ordered.countEnded_stop, hended, hkinds]
  simp only [Context.withoutStart, Context.mk.injEq]
  exact ⟨hhead, hcolumnAt, congrArg Nat.cast hindex, hlineAt, trivial⟩

/-- The lists around a cursor, if all of them are opened above the line. -/
theorem withoutStart_contexts_eq (maxSteps : Nat)
    (hbefore : countBefore (significantTokens d'.text) cursor' =
      countBefore (significantTokens d.text) cursor)
    (hline : ∀ t ∈ significantTokens d.text, t.kind = .opener → t.start < cursor →
      d.lineAt t.start < k) :
    ((Navigator.ofDocument d' maxSteps).contexts cursor').current.map Context.withoutStart =
        ((Navigator.ofDocument d maxSteps).contexts cursor).current.map Context.withoutStart ∧
      ((Navigator.ofDocument d' maxSteps).contexts cursor').parent.map Context.withoutStart =
        ((Navigator.ofDocument d maxSteps).contexts cursor).parent.map Context.withoutStart := by
  have hs := Navigator.shows_ofDocument d maxSteps
  have hs' := Navigator.shows_ofDocument d' maxSteps
  have hkinds := kinds_eq_of_placed_eq h.placed_eq
  have hlen := length_eq_of_placed_eq h.placed_eq
  generalize hn : countBefore (significantTokens d.text) cursor = n at hbefore
  have hle : n ≤ (significantTokens d.text).length := by
    rw [← hn]
    exact List.countP_le_length
  -- each step out ends at an opener above the line
  have hopener {m o : Nat} (hm : m ≤ n)
      (ho : Span.enclosing ((significantTokens d.text).map (·.kind)) maxSteps m = some o) :
      ∃ (hi : o < (significantTokens d.text).length)
        (_ : o < (significantTokens d'.text).length),
        (significantTokens d.text)[o].kind = .opener ∧
          d.lineAt (significantTokens d.text)[o].start < k ∧ o < m := by
    obtain ⟨hkind, hlt⟩ := Span.opener_of_enclosing (by simpa using Nat.le_trans hm hle) ho
    have hi : o < (significantTokens d.text).length := by omega
    have hkind : (significantTokens d.text)[o].kind = .opener := by simpa [hi] using hkind
    have hstart := (hs.ordered.lt_countBefore_iff hi cursor).mp (by omega)
    exact ⟨hi, by omega, hkind, hline _ (List.getElem_mem hi) hkind hstart, hlt⟩
  -- both documents climb the same row of kinds
  have hup (offset : Int) : (Navigator.ofDocument d maxSteps).upList offset 1 =
      (Span.enclosing ((significantTokens d.text).map (·.kind)) maxSteps
        (countBefore (significantTokens d.text) offset)).bind
          fun i => (significantTokens d.text)[i]? :=
    hs.enclosingOpener_eq maxSteps offset
  have hup' (offset : Int) : (Navigator.ofDocument d' maxSteps).upList offset 1 =
      (Span.enclosing ((significantTokens d.text).map (·.kind)) maxSteps
        (countBefore (significantTokens d'.text) offset)).bind
          fun i => (significantTokens d'.text)[i]? := by
    rw [← hkinds]
    exact hs'.enclosingOpener_eq maxSteps offset
  rw [Navigator.contexts, Navigator.contexts, hup, hup', hbefore, hn]
  cases ho : Span.enclosing ((significantTokens d.text).map (·.kind)) maxSteps n with
  | none => exact ⟨rfl, rfl⟩
  | some o =>
    obtain ⟨hi, hi', hkind, hline, hlt⟩ := hopener (Nat.le_refl n) ho
    simp only [Option.bind_some, List.getElem?_eq_getElem hi, List.getElem?_eq_getElem hi',
      Option.map_some]
    rw [h.withoutStart_contextIn_eq hended maxSteps hi hi' hkind hline]
    refine ⟨rfl, ?_⟩
    rw [hup, hup', hs.ordered.countBefore_start hi, hs'.ordered.countBefore_start hi']
    cases hp : Span.enclosing ((significantTokens d.text).map (·.kind)) maxSteps o with
    | none => rfl
    | some p =>
      obtain ⟨hj, hj', hkind, hline, -⟩ := hopener (by omega) hp
      simp only [Option.bind_some, List.getElem?_eq_getElem hj, List.getElem?_eq_getElem hj',
        Option.map_some]
      rw [h.withoutStart_contextIn_eq hended maxSteps hj hj' hkind hline]

end Contexts

end KeepsAbove

/-- Going forward from an offset, the first significant token. -/
theorem scan_forward_eq (d : Document) (maxSteps : Nat) (offset : Int) :
    (Navigator.ofDocument d maxSteps).index.scan offset .forward false =
      (significantTokens d.text)[countEnded (significantTokens d.text) offset]? :=
  TokenIndex.scan_forward_eq d.text offset false

theorem eq_bodyStart_iff (d : Document) {n k : Nat} (hn : n ≤ d.text.length)
    (hk : k < d.lines.length) : (n : Int) = d.bodyStart k ↔ d.placeOf n = ((k : Int), 0) := by
  constructor
  · intro h
    have hstart := bodyStart_eq d hk
    have hend := d.bodyStart_add_length hk
    rw [d.placeOf_of_le hk (by omega) (by omega), Prod.mk.injEq]
    exact ⟨rfl, by omega⟩
  · intro h
    obtain ⟨j, hj, hplace, -⟩ := d.exists_placeOf hn
    rw [hplace, Prod.mk.injEq] at h
    obtain rfl : j = k := Int.ofNat.inj h.1
    omega

namespace KeepsAbove

variable {d d' : Document} {k : Nat}

/-- **The column that the rules give** stays. -/
theorem ruleColumn_eq (h : d.KeepsAbove d' k) (hatoms : d.AtomsInLines) (table : IndentTable)
    (hk : k < d.lines.length) (hin : ¬ d.StartsInside k) :
    d'.ruleColumn table k = d.ruleColumn table k := by
  have hk' := h.reindents.lt_length hk
  have hin' : ¬ d'.StartsInside k := fun hin' =>
    hin ((h.reindents.startsInside_iff (Nat.le_of_lt hk)).mp hin')
  have hatoms' := hatoms.of_reindents h.reindents
  have hbefore := countBefore_eq_of_placed_eq h.placed_eq hk hk' (Nat.zero_le _) (Nat.zero_le _)
  rw [Int.natCast_zero, Int.add_zero, Int.add_zero] at hbefore
  obtain ⟨hended, hended₁⟩ := hatoms.countEnded_bodyStart hk hin
  obtain ⟨hended', hended₁'⟩ := hatoms'.countEnded_bodyStart hk' hin'
  have hcontexts := h.withoutStart_contexts_eq
    (hended₁'.trans (hbefore.trans hended₁.symm)) table.maxSteps hbefore
    fun t ht hkind hlt => d.lineAt_lt_of_opener ht hkind hk (List.nil_append _).symm
      List.not_mem_nil (by simpa using hlt)
  -- a token starts the body of its line in both documents or in neither
  have hfirst : (((Navigator.ofDocument d' table.maxSteps).index.scan (d'.bodyStart k) .forward
        false).bind fun t => if t.start = d'.bodyStart k then some t.toLexeme else none) =
      ((Navigator.ofDocument d table.maxSteps).index.scan (d.bodyStart k) .forward
        false).bind fun t => if t.start = d.bodyStart k then some t.toLexeme else none := by
    have hlen := length_eq_of_placed_eq h.placed_eq
    rw [scan_forward_eq, scan_forward_eq, hended', hended, hbefore]
    generalize countBefore (significantTokens d.text) (d.bodyStart k) = i
    by_cases hi : i < (significantTokens d.text).length
    · have hi' : i < (significantTokens d'.text).length := by omega
      obtain ⟨hlexeme, hplace⟩ := getElem_of_placed_eq h.placed_eq hi hi'
      obtain ⟨n, hn, hle⟩ := exists_start_of_mem_significantTokens (List.getElem_mem hi)
      obtain ⟨n', hn', hle'⟩ := exists_start_of_mem_significantTokens (List.getElem_mem hi')
      rw [hn, hn'] at hplace
      have hiff : (n' : Int) = d'.bodyStart k ↔ (n : Int) = d.bodyStart k := by
        rw [d'.eq_bodyStart_iff hle' hk', d.eq_bodyStart_iff hle hk, hplace]
      simp only [List.getElem?_eq_getElem hi, List.getElem?_eq_getElem hi', Option.bind_some, hn,
        hn', hiff, hlexeme]
    · rw [List.getElem?_eq_none (by omega), List.getElem?_eq_none (by omega)]
      rfl
  unfold ruleColumn
  dsimp only
  rw [hfirst, ← IndentInput.column_withoutStart, ← IndentInput.column_withoutStart (IndentInput.mk
    ((Navigator.ofDocument d table.maxSteps).contexts (d.bodyStart k)).current _ _ _)]
  unfold IndentInput.withoutStart
  dsimp only
  rw [hcontexts.1, hcontexts.2]

/-- **A line gets the same edits.** -/
theorem editsFor_eq (h : d.KeepsAbove d' k) (hatoms : d.AtomsInLines) (table : IndentTable)
    (hk : k < d.lines.length) : d'.editsFor table k = d.editsFor table k := by
  have hiff := h.reindents.startsInside_iff (Nat.le_of_lt hk)
  rw [editsFor, editsFor, h.alignment_eq _ _ hk]
  by_cases hin : d.StartsInside k
  · rw [if_pos hin, if_pos (hiff.mpr hin)]
  · rw [if_neg hin, if_neg fun hin' => hin (hiff.mp hin'), h.ruleColumn_eq hatoms table hk hin]

end KeepsAbove

end Document

end SexpEditing
