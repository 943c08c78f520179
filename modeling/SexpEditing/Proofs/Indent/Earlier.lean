import SexpEditing.Proofs.Document.History
import SexpEditing.Proofs.Indent.Closers
import SexpEditing.Proofs.Sexp.Enclosing

/-!
# Lists opened on earlier lines

The rules see a line from its first unit that is no blank, and before that unit the line holds no
opening delimiter. So the lists that the rules look at were opened on lines above, the outer one
before the inner one. A rule that asks for lists opened on the line itself is never the one that
decides.

## Main definitions

* `Document.consultation`: what the rules are asked about a line, if they are asked at all
* `Document.computeIndentBy`: the edits that some rules give

## Main results

* `Document.computeIndentBy_all`: the edits are those of all rules
* `IndentRule.select_filter`: a rule that does not apply may be left out
* `Document.decided_from_earlier_lines`: the lists were opened earlier, and one rule is idle
-/

namespace SexpEditing

open Token

namespace Document

/-- What decides how the line of an offset is indented: edits for which no rule is needed, or all
that the rules are asked. -/
def consultation (d : Document) (offset : Int) (table : IndentTable) :
    Except DocumentError (List IndentEdit ⊕ IndentInput) := do
  let nav := Navigator.ofDocument d table.maxSteps
  let line := d.lineAt offset
  let ⟨start, width, _⟩ ← d.lineIndentation line
  let position := start + width
  if nav.index.insideText position d.length then return .inl []
  match ← nav.dedentPass line table.maxDedentSteps with
  | [] =>
    let ⟨current, parent⟩ := nav.contexts position
    let firstToken := (nav.index.scan position .forward false).bind fun t =>
      if t.start = position then some t.toLexeme else none
    return .inr ⟨current, parent, ⟨line, firstToken⟩, table⟩
  | edits => return .inl edits

/-- The edits that indent the line of an offset by some rules. -/
def computeIndentBy (rules : List IndentRule) (d : Document) (offset : Int) (table : IndentTable) :
    Except DocumentError (List IndentEdit) := do
  match ← d.consultation offset table with
  | .inl edits => return edits
  | .inr input => return [⟨input.line.line, (IndentRule.select rules input).2⟩]

/-- **The edits are those of all rules.** -/
theorem computeIndentBy_all (d : Document) (offset : Int) (table : IndentTable) :
    d.computeIndentBy IndentRule.all offset table = d.computeIndent offset table := by
  rw [computeIndentBy, consultation, computeIndent]
  cases d.lineIndentation (d.lineAt offset) with
  | error e => rfl
  | ok indentation =>
    simp only [bind, Except.bind]
    cases (Navigator.ofDocument d table.maxSteps).index.insideText
        (indentation.start + indentation.width) d.length with
    | true => rfl
    | false =>
      cases (Navigator.ofDocument d table.maxSteps).dedentPass (d.lineAt offset)
          table.maxDedentSteps with
      | error e => rfl
      | ok edits => cases edits <;> rfl

/-- Rules that select the same column for what they are asked give the same edits. -/
theorem computeIndentBy_congr {d : Document} {offset : Int} {table : IndentTable}
    {rules rules' : List IndentRule}
    (h : ∀ input, d.consultation offset table = .ok (.inr input) →
      IndentRule.select rules input = IndentRule.select rules' input) :
    d.computeIndentBy rules offset table = d.computeIndentBy rules' offset table := by
  rw [computeIndentBy, computeIndentBy]
  cases hc : d.consultation offset table with
  | error e => rfl
  | ok decision =>
    cases decision with
    | inl edits => rfl
    | inr input =>
      simp only [bind, Except.bind]
      rw [h input hc]

/-- The rules are asked about the line of the offset, and about the lists around its first unit
that is no blank. -/
theorem exists_of_consultation {d : Document} {offset : Int} {table : IndentTable}
    {input : IndentInput} (h : d.consultation offset table = .ok (.inr input)) :
    ∃ k, k < d.lines.length ∧ d.lineAt offset = k ∧ input.line.line = k ∧
      (Navigator.ofDocument d table.maxSteps).contexts (d.bodyStart k) =
        ⟨input.current, input.parent⟩ := by
  obtain ⟨k, hk, hline, -, -⟩ := d.exists_lineAt offset
  refine ⟨k, hk, hline, ?_⟩
  rw [consultation, hline, lineIndentation_of_lt d hk] at h
  simp only [bind, Except.bind] at h
  rw [d.length_above_add_blanks hk, dedentPass_eq d _ _ hk] at h
  split at h
  · cases h
  · cases hal : d.alignment table.maxSteps table.maxDedentSteps k with
    | nil =>
      rw [hal] at h
      cases h
      exact ⟨rfl, rfl⟩
    | cons edit rest =>
      rw [hal] at h
      cases h

/-- A later offset is on the same line or on a later one. -/
theorem lineAt_mono (d : Document) {a b : Int} (h : a ≤ b) : d.lineAt a ≤ d.lineAt b := by
  have hclamp : d.clamp a ≤ d.clamp b := by
    unfold clamp
    omega
  rw [lineAt_eq_count, lineAt_eq_count]
  exact_mod_cast (List.take_sublist_take_left hclamp).count_le _

end Document

namespace Navigator

/-- The innermost list around an offset is opened before it. -/
theorem opener_of_upList {d : Document} {maxSteps : Nat} {offset : Int} {opener : Token}
    (h : (ofDocument d maxSteps).upList offset 1 = some opener) :
    opener ∈ significantTokens d.text ∧ opener.kind = .opener ∧ opener.start < offset := by
  have hs := shows_ofDocument d maxSteps
  rw [upList, hs.enclosingOpener_eq] at h
  obtain ⟨o, ho, ht⟩ := Option.bind_eq_some_iff.mp h
  obtain ⟨hlt, rfl⟩ := List.getElem?_eq_some_iff.mp ht
  have hle : countBefore (significantTokens d.text) offset ≤ (significantTokens d.text).length :=
    List.countP_le_length
  obtain ⟨hkind, hbefore⟩ := Span.opener_of_enclosing (by simpa using hle) ho
  exact ⟨List.getElem_mem hlt, by simpa [hlt] using hkind,
    (hs.ordered.lt_countBefore_iff hlt offset).mp hbefore⟩

/-- **The lists around the first unit of a line** that is no blank are opened on lines above, the
outer one before the inner one. -/
theorem opened_earlier_of_contexts (d : Document) (maxSteps : Nat) {k : Nat}
    (hk : k < d.lines.length) {current parent : Option Context}
    (h : (ofDocument d maxSteps).contexts (d.bodyStart k) = ⟨current, parent⟩) :
    (∀ c, current = some c → c.line < k) ∧
      ∀ p, parent = some p → ∃ c, current = some c ∧ p.start < c.start ∧ p.line ≤ c.line := by
  rw [contexts] at h
  cases hinner : (ofDocument d maxSteps).upList (d.bodyStart k) 1 with
  | none =>
    rw [hinner] at h
    cases h
    exact ⟨fun _ hc => (nomatch hc), fun _ hp => (nomatch hp)⟩
  | some opener =>
    rw [hinner] at h
    cases h
    obtain ⟨hmem, hkind, hstart⟩ := opener_of_upList hinner
    constructor
    · rintro c ⟨⟩
      -- nothing but blanks precedes the unit on its line
      exact d.lineAt_lt_of_opener hmem hkind hk (List.nil_append _).symm List.not_mem_nil
        (by simpa using hstart)
    · intro p hp
      obtain ⟨outer, houter, rfl⟩ := Option.map_eq_some_iff.mp hp
      obtain ⟨-, -, hlt⟩ := opener_of_upList houter
      exact ⟨_, rfl, hlt, d.lineAt_mono (Int.le_of_lt hlt)⟩

end Navigator

namespace IndentRule

variable {rules : List IndentRule} {name : String} {input : IndentInput}

/-- The rules of a name that do not apply may be left out. -/
theorem select_filter (h : ∀ rule ∈ rules, rule.name = name → rule.apply input = none) :
    select (rules.filter fun rule => rule.name ≠ name) input = select rules input := by
  have hfind : (rules.filter fun rule => rule.name ≠ name).findSome?
        (fun rule => (rule.apply input).map fun column => (rule.name, column)) =
      rules.findSome? fun rule => (rule.apply input).map fun column => (rule.name, column) := by
    induction rules with
    | nil => rfl
    | cons rule rest ih =>
      have hrest := ih fun r hr => h r (List.mem_cons_of_mem _ hr)
      by_cases hname : rule.name = name
      · rw [List.filter_cons_of_neg (by simpa using hname), hrest, List.findSome?_cons,
          h rule List.mem_cons_self hname]
        rfl
      · rw [List.filter_cons_of_pos (by simpa using hname), List.findSome?_cons,
          List.findSome?_cons, hrest]
  rw [select, select, hfind]

/-- Such rules are not the ones that decide. -/
theorem select_name_ne (h : ∀ rule ∈ rules, rule.name = name → rule.apply input = none)
    (hname : name ≠ "none") : (select rules input).1 ≠ name := by
  rw [select]
  split
  · next selected column hsome =>
    obtain ⟨rule, hmem, happly⟩ := List.exists_of_findSome?_eq_some hsome
    obtain ⟨column', hcolumn, hpair⟩ := Option.map_eq_some_iff.mp happly
    cases hpair
    intro heq
    rw [h rule hmem heq] at hcolumn
    cases hcolumn
  · exact hname.symm

/-- Only one rule asks for lists opened on the line itself. -/
theorem apply_eq_none_of_opened_earlier (hcurrent : ∀ c, input.current = some c →
      c.line < input.line.line) :
    ∀ rule ∈ all, rule.name = sameLine.name → rule.apply input = none := by
  intro rule hmem hname
  have hrule : rule = sameLine := by
    simp only [all, List.mem_cons, List.not_mem_nil, or_false] at hmem
    rcases hmem with rfl | rfl | rfl | rfl | rfl | rfl | rfl | rfl | rfl
    case inr.inr.inr.inr.inr.inr.inr.inl => rfl
    all_goals exact absurd hname (by decide)
  rw [hrule, Option.eq_none_iff_forall_ne_some]
  intro column happly
  obtain ⟨c, hc, hsome⟩ := Option.bind_eq_some_iff.mp happly
  split at hsome
  · next hboth => exact Int.ne_of_lt (hcurrent c hc) hboth.1
  · cases hsome

end IndentRule

namespace Document

/-- **The column of a line is decided from lists opened on earlier lines.** Where the rules are
asked about a line, the current context, if there is one, is on a line above, and the parent
context, if there is one, starts before the current one and on no later line. So the rule for lists
opened on the same line never decides, and without it every edit would be the same. -/
theorem decided_from_earlier_lines (d : Document) (offset : Int) (table : IndentTable) :
    d.computeIndent offset table = d.computeIndentBy IndentRule.all offset table ∧
    (∀ input, d.consultation offset table = .ok (.inr input) →
      input.line.line = d.lineAt offset ∧
      (∀ c, input.current = some c → c.line < input.line.line) ∧
      (∀ p, input.parent = some p →
        ∃ c, input.current = some c ∧ p.start < c.start ∧ p.line ≤ c.line) ∧
      (IndentRule.select IndentRule.all input).1 ≠ IndentRule.sameLine.name) ∧
    d.computeIndentBy (IndentRule.all.filter fun rule => rule.name ≠ IndentRule.sameLine.name)
        offset table =
      d.computeIndent offset table := by
  have hasked : ∀ input, d.consultation offset table = .ok (.inr input) →
      input.line.line = d.lineAt offset ∧
      (∀ c, input.current = some c → c.line < input.line.line) ∧
      ∀ p, input.parent = some p →
        ∃ c, input.current = some c ∧ p.start < c.start ∧ p.line ≤ c.line := by
    intro input hinput
    obtain ⟨k, hk, hline, hinline, hcontexts⟩ := exists_of_consultation hinput
    rw [hline, hinline]
    exact ⟨rfl, Navigator.opened_earlier_of_contexts d table.maxSteps hk hcontexts⟩
  refine ⟨(d.computeIndentBy_all offset table).symm, fun input hinput => ?_, ?_⟩
  · obtain ⟨hline, hcurrent, hparent⟩ := hasked input hinput
    exact ⟨hline, hcurrent, hparent, IndentRule.select_name_ne
      (IndentRule.apply_eq_none_of_opened_earlier hcurrent) (by decide)⟩
  · rw [← d.computeIndentBy_all]
    exact computeIndentBy_congr fun input hinput => IndentRule.select_filter
      (IndentRule.apply_eq_none_of_opened_earlier (hasked input hinput).2.1)

end Document

end SexpEditing
