import SexpEditing.Proofs.Symbol.Comments

/-!
# Words and names of definitions

A definition is reported where a defining word and a name stand in one of two styles. The search
goes from the left, and behind a definition it goes on where the name ends, so the definitions of a
line do not overlap. A name is taken as far as it goes, and no letter, digit or low line stands
before the word. A question mark may stand there, though it is a unit of names: then the word is the
end of a longer one.

## Main definitions

* `SourceDefinition.Writing`: a definition as it is written in a line
* `SourceDefinition.Writing.Whole`: neither its word nor its name is part of a longer identifier
* `SourceDefinition.Finds`: what the search finds in the rest of a line

## Main results

* `SourceDefinition.exists_isRead_of_here?`, `SourceDefinition.isSome_here?`: one place
* `SourceDefinition.exists_finds`, `SourceDefinition.exists_reports`: one line
* `SourceDefinition.words_whole_iff`: the texts of which only whole words are reported
* `SourceDefinition.reports_part_of_word`: a text of which a part of a word is reported
-/

namespace SexpEditing

open CodeUnit

namespace SourceDefinition

/-- A text that is a name. -/
def IsName (t : Text) : Prop :=
  ∃ c rest, t = c :: rest ∧ isNameStart c = true ∧ rest.all isNameUnit = true

/-- The two styles: what stands before the word of a definition, and what stands between the word
and the name. -/
inductive Styled : (lead gap : Text) → Prop
  | list {blanks gap : Text} (hblanks : blanks.all isSpace = true) (hne : gap ≠ [])
      (hgap : gap.all isSpace = true) : Styled (leftParen :: blanks) gap
  | call {blanks : Text} (hblanks : blanks.all isSpace = true) : Styled [] (leftParen :: blanks)

/-- A definition as it is written in a line, with what stands before it and after it. -/
structure Writing where
  category : SymbolCategory
  before : Text
  /-- What stands before the word: an opening delimiter and white space, or nothing in a call. -/
  lead : Text
  word : Text
  /-- What stands between the word and the name. -/
  gap : Text
  name : Text
  after : Text
  word_mem : (word, category) ∈ definingWords
  styled : Styled lead gap
  isName : IsName name

namespace Writing

/-- The definition with what stands after it on the line. -/
def tail (w : Writing) : Text := w.lead ++ (w.word ++ (w.gap ++ (w.name ++ w.after)))

/-- The line. -/
def line (w : Writing) : Text := w.before ++ w.tail

/-- The offset at which the definition starts. -/
def start (w : Writing) : Nat := w.before.length

/-- The offset at which its name ends. -/
def stop (w : Writing) : Nat :=
  w.start + (w.lead.length + (w.word.length + (w.gap.length + w.name.length)))

/-- The line up to the end of the name. -/
def passed (w : Writing) : Text := w.before ++ (w.lead ++ (w.word ++ (w.gap ++ w.name)))

/-- The unit directly before the word. -/
def previous (w : Writing) : Option CodeUnit := (w.before ++ w.lead).getLast?

/-- The unit directly after the name. -/
def next (w : Writing) : Option CodeUnit := w.after.head?

/-- The definition that is written. -/
def definition (w : Writing) : LineDefinition := ⟨w.category, w.name, w.start⟩

/-- Neither the word nor the name is part of a longer identifier. -/
def Whole (w : Writing) : Prop :=
  w.previous.any isNameUnit = false ∧ w.next.any isNameUnit = false

/-- A call whose word stands directly behind a question mark. -/
def IsMarkedCall (w : Writing) : Prop := w.lead = [] ∧ w.previous = some questionMark

/-- A definition starts within another one. -/
def StartsWithin (w v : Writing) : Prop := v.start < w.start ∧ w.start < v.stop

end Writing

/-! ### Units and words -/

theorem not_isWordUnit_of_isSpace {c : CodeUnit} (h : isSpace c = true) : isWordUnit c = false := by
  simp only [isSpace, Bool.or_eq_true, Bool.and_eq_true, decide_eq_true_eq, beq_iff_eq,
    UInt16.le_iff_toNat_le, ← UInt16.toNat_inj, UInt16.reduceToNat] at h
  simp only [isWordUnit, isNameStart, isLetter, isDigit, lowLine, Bool.or_eq_false_iff,
    Bool.and_eq_false_iff, decide_eq_false_iff_not, beq_eq_false_iff_ne, ne_eq,
    UInt16.le_iff_toNat_le, ← UInt16.toNat_inj, UInt16.reduceToNat]
  omega

theorem isWordUnit_of_isNameStart {c : CodeUnit} (h : isNameStart c = true) :
    isWordUnit c = true := by
  rw [isWordUnit, h, Bool.true_or]

/-- A unit of a name that is no unit of a word is a question mark. -/
theorem eq_questionMark {c : CodeUnit} (hname : isNameUnit c = true)
    (hword : isWordUnit c = false) : c = questionMark := by
  rw [isNameUnit, hword, Bool.false_or] at hname
  exact beq_iff_eq.mp hname

theorem isWordUnit_of_mem_definingWords {word : Text} {category : SymbolCategory}
    (h : (word, category) ∈ definingWords) : word ≠ [] ∧ word.all isWordUnit = true := by
  have hall : ∀ p ∈ definingWords, p.1 ≠ [] ∧ p.1.all isWordUnit = true := by decide
  exact hall _ h

/-- A defining word is read where it stands, since no other one begins it. -/
theorem word?_append {word : Text} {category : SymbolCategory}
    (h : (word, category) ∈ definingWords) (rest : Text) :
    word? (word ++ rest) = some (category, rest) := by
  unfold definingWords at h
  simp only [List.map_cons, List.map_nil, List.mem_cons, Prod.mk.injEq, List.not_mem_nil,
    or_false] at h
  rcases h with ⟨rfl, rfl⟩ | ⟨rfl, rfl⟩ | ⟨rfl, rfl⟩ | ⟨rfl, rfl⟩ | ⟨rfl, rfl⟩ | ⟨rfl, rfl⟩ |
    ⟨rfl, rfl⟩ | ⟨rfl, rfl⟩ | ⟨rfl, rfl⟩ <;> rfl

theorem exists_of_word? {t rest : Text} {category : SymbolCategory}
    (h : word? t = some (category, rest)) :
    ∃ word, (word, category) ∈ definingWords ∧ t = word ++ rest := by
  obtain ⟨⟨word, c⟩, hmem, hword⟩ := List.exists_of_findSome?_eq_some h
  obtain ⟨r, hr, he⟩ := Option.map_eq_some_iff.mp hword
  cases he
  exact ⟨word, hmem, eq_append_of_after? hr⟩

theorem exists_of_name? {t name after : Text} (h : name? t = some (name, after)) :
    t = name ++ after ∧ IsName name ∧ after.head?.any isNameUnit = false := by
  cases t with
  | nil => cases h
  | cons c rest =>
    rw [name?] at h
    split at h
    · next hc =>
      cases h
      refine ⟨?_, ⟨c, _, rfl, hc, List.all_takeWhile⟩, ?_⟩
      · rw [List.cons_append, List.takeWhile_append_dropWhile]
      · have hhead := List.head?_dropWhile_not isNameUnit rest
        cases hrest : rest.dropWhile isNameUnit with
        | nil => rfl
        | cons d more =>
          rw [hrest] at hhead
          simpa using hhead
    · cases h

theorem isSome_name? {name : Text} (h : IsName name) (after : Text) :
    (name? (name ++ after)).isSome = true := by
  obtain ⟨c, rest, rfl, hc, -⟩ := h
  rw [List.cons_append, name?, if_pos hc]
  rfl

/-- White space is passed over up to a unit of a word. -/
theorem dropWhile_isSpace_append {blanks x : Text} (hblanks : blanks.all isSpace = true)
    {c : CodeUnit} (hc : x.head? = some c) (hword : isWordUnit c = true) :
    (blanks ++ x).dropWhile isSpace = x := by
  obtain ⟨rest, rfl⟩ := List.head?_eq_some_iff.mp hc
  have hspace : ¬ isSpace c = true := fun h => by
    rw [not_isWordUnit_of_isSpace h] at hword
    cases hword
  rw [List.dropWhile_append_of_pos (List.all_eq_true.mp hblanks),
    List.dropWhile_cons_of_neg hspace]

theorem exists_head?_word {word : Text} {category : SymbolCategory}
    (h : (word, category) ∈ definingWords) (rest : Text) :
    ∃ c, (word ++ rest).head? = some c ∧ isWordUnit c = true := by
  obtain ⟨hne, hall⟩ := isWordUnit_of_mem_definingWords h
  obtain ⟨c, more, rfl⟩ := List.exists_cons_of_ne_nil hne
  exact ⟨c, rfl, List.all_eq_true.mp hall c List.mem_cons_self⟩

theorem IsName.exists_head? {name : Text} (h : IsName name) (rest : Text) :
    ∃ c, (name ++ rest).head? = some c ∧ isWordUnit c = true := by
  obtain ⟨c, more, rfl, hc, -⟩ := h
  exact ⟨c, rfl, isWordUnit_of_isNameStart hc⟩

theorem IsName.ne_nil {name : Text} (h : IsName name) : name ≠ [] := by
  obtain ⟨c, more, rfl, -⟩ := h
  exact List.cons_ne_nil c more

/-! ### One place -/

namespace Writing

variable (w : Writing)

theorem start_lt_stop : w.start < w.stop := by
  have hword := List.length_pos_iff.mpr (isWordUnit_of_mem_definingWords w.word_mem).1
  rw [stop]
  omega

theorem length_passed : w.passed.length = w.stop := by
  simp only [passed, List.length_append, stop, start]

theorem passed_append : w.passed ++ w.after = w.line := by
  simp only [passed, line, tail, List.append_assoc]

theorem getLast?_passed : w.passed.getLast? = w.name.getLast? := by
  rw [passed, ← List.append_assoc, ← List.append_assoc, ← List.append_assoc]
  exact List.getLast?_append_of_ne_nil _ w.isName.ne_nil

theorem stop_le_length : w.stop ≤ w.line.length := by
  rw [← passed_append, List.length_append, length_passed]
  exact Nat.le_add_right ..

/-- In a list the word stands behind white space or the opening delimiter. -/
theorem previous_of_list {blanks : Text} (hlead : w.lead = leftParen :: blanks)
    (hblanks : blanks.all isSpace = true) : w.previous.any isNameUnit = false := by
  rw [previous, hlead]
  rcases List.eq_nil_or_concat blanks with rfl | ⟨init, c, rfl⟩
  · rw [List.getLast?_append_cons]
    rfl
  · have hc : isSpace c = true := List.all_eq_true.mp hblanks c (by simp)
    have hmark : c ≠ questionMark := by
      rintro rfl
      cases hc
    rw [List.concat_eq_append, ← List.cons_append, ← List.append_assoc, List.getLast?_concat,
      Option.any_some, isNameUnit, not_isWordUnit_of_isSpace hc, Bool.false_or]
    exact beq_false_of_ne hmark

theorem previous_of_call (hlead : w.lead = []) : w.previous = w.before.getLast? := by
  rw [previous, hlead, List.append_nil]

end Writing

/-- What is read at the front of a text, behind something else. -/
structure Writing.IsRead (w : Writing) (front t : Text)
    (found : SymbolCategory × Text × Text) : Prop where
  before_eq : w.before = front
  tail_eq : w.tail = t
  found_eq : found = (w.category, w.name, w.after)
  next_eq : w.next.any isNameUnit = false

theorem exists_isRead_of_inList? (front : Text) {t : Text} {found : SymbolCategory × Text × Text}
    (h : inList? t = some found) :
    ∃ w : Writing, w.IsRead front t found ∧ w.previous.any isNameUnit = false := by
  fun_cases inList? t with
  | case2 => simp_all [inList?]
  | case1 t =>
    simp only [inList?, Option.bind_eq_bind, Option.bind_eq_some_iff, Prod.exists] at h
    obtain ⟨category, rest, hword, h⟩ := h
    split at h
    · next hspace =>
      simp only [Option.bind_eq_some_iff, Prod.exists] at h
      obtain ⟨name, after, hname, h⟩ := h
      cases h
      obtain ⟨word, hmem, hw⟩ := exists_of_word? hword
      obtain ⟨hrest, hisName, hnext⟩ := exists_of_name? hname
      have hgap : rest.takeWhile isSpace ≠ [] := by
        cases rest with
        | nil => cases hspace
        | cons d rest => simp [List.takeWhile_cons_of_pos (show isSpace d = true from hspace)]
      have hstyled : Styled (leftParen :: t.takeWhile isSpace) (rest.takeWhile isSpace) :=
        .list List.all_takeWhile hgap List.all_takeWhile
      let w : Writing := ⟨category, front, _, word, _, name, after, hmem, hstyled, hisName⟩
      refine ⟨w, ⟨rfl, ?_, rfl, hnext⟩, w.previous_of_list rfl List.all_takeWhile⟩
      show leftParen :: _ ++ (word ++ (_ ++ (name ++ after))) = _
      rw [← hrest, List.takeWhile_append_dropWhile, ← hw, List.cons_append,
        List.takeWhile_append_dropWhile]
      rfl
    · cases h

theorem exists_isRead_of_inCall? (front : Text) {t : Text} {found : SymbolCategory × Text × Text}
    (h : inCall? t = some found) : ∃ w : Writing, w.IsRead front t found ∧ w.lead = [] := by
  simp only [inCall?, Option.bind_eq_bind, Option.bind_eq_some_iff, Prod.exists] at h
  obtain ⟨category, rest, hword, h⟩ := h
  split at h
  · next rest =>
    simp only [Option.bind_eq_some_iff, Prod.exists] at h
    obtain ⟨name, after, hname, h⟩ := h
    cases h
    obtain ⟨word, hmem, hw⟩ := exists_of_word? hword
    obtain ⟨hrest, hisName, hnext⟩ := exists_of_name? hname
    have hstyled : Styled [] (leftParen :: rest.takeWhile isSpace) := .call List.all_takeWhile
    refine ⟨⟨category, front, [], word, _, name, after, hmem, hstyled, hisName⟩,
      ⟨rfl, ?_, rfl, hnext⟩, rfl⟩
    show [] ++ (word ++ (leftParen :: _ ++ (name ++ after))) = _
    rw [← hrest, List.nil_append, List.cons_append, List.takeWhile_append_dropWhile, hw]
    rfl
  · cases h

/-- **What is found at one place** is written there, and no unit of a word stands before it. -/
theorem exists_isRead_of_here? {front t : Text} {found : SymbolCategory × Text × Text}
    (h : here? front.getLast? t = some found) :
    ∃ w : Writing, w.IsRead front t found ∧ w.previous.any isWordUnit = false := by
  rcases Option.or_eq_some_iff.mp h with h | ⟨-, h⟩
  · obtain ⟨w, hw, hprevious⟩ := exists_isRead_of_inList? front h
    refine ⟨w, hw, ?_⟩
    cases hp : w.previous with
    | none => rfl
    | some c =>
      rw [hp, Option.any_some, isNameUnit, Bool.or_eq_false_iff] at hprevious
      exact hprevious.1
  · split at h
    · cases h
    · next hbefore =>
      obtain ⟨w, hw, hlead⟩ := exists_isRead_of_inCall? front h
      refine ⟨w, hw, ?_⟩
      rw [w.previous_of_call hlead, hw.before_eq]
      simpa using hbefore

/-- **A definition is found where it is written**, unless a unit of a word stands before it. -/
theorem isSome_here? (w : Writing) (h : w.previous.any isWordUnit = false) :
    (here? w.before.getLast? w.tail).isSome = true := by
  obtain ⟨category, before, lead, word, gap, name, after, hmem, hstyled, hname⟩ := w
  obtain ⟨c, hc, hcword⟩ := exists_head?_word hmem (gap ++ (name ++ after))
  obtain ⟨d, hd, hdword⟩ := hname.exists_head? after
  have hread := isSome_name? hname after
  rw [here?, Option.isSome_or, Bool.or_eq_true]
  cases hstyled with
  | @list blanks gap hblanks hne hgap =>
    left
    obtain ⟨g, more, rfl⟩ := List.exists_cons_of_ne_nil hne
    have hg : isSpace g = true := List.all_eq_true.mp hgap g List.mem_cons_self
    have hdrop := dropWhile_isSpace_append hgap hd hdword
    have hword : word? ((blanks ++ (word ++ (g :: more ++ (name ++ after)))).dropWhile isSpace) =
        some (category, g :: more ++ (name ++ after)) := by
      rw [dropWhile_isSpace_append hblanks hc hcword, word?_append hmem]
    obtain ⟨r, hr⟩ := Option.isSome_iff_exists.mp hread
    show Option.isSome (Option.bind
      (word? ((blanks ++ (word ++ (g :: more ++ (name ++ after)))).dropWhile isSpace)) _) = true
    rw [hword, Option.bind_some]
    simp only [List.cons_append, List.head?_cons, Option.any_some, hg, if_true]
    rw [← List.cons_append, hdrop, hr]
    rfl
  | @call blanks hblanks =>
    right
    rw [Writing.previous_of_call _ rfl] at h
    have hdrop := dropWhile_isSpace_append hblanks hd hdword
    obtain ⟨r, hr⟩ := Option.isSome_iff_exists.mp hread
    simp only [h, Bool.false_eq_true, if_false]
    show Option.isSome (Option.bind (word? (word ++ _)) _) = true
    rw [word?_append hmem, Option.bind_some]
    show Option.isSome
      (Option.bind (name? ((blanks ++ (name ++ after)).dropWhile isSpace)) _) = true
    rw [hdrop, hr]
    rfl

/-! ### One line -/

theorem matchesFrom_of_none {before : Option CodeUnit} {c : CodeUnit} {rest : Text}
    (h : here? before (c :: rest) = none) (offset : Nat) :
    matchesFrom before offset (c :: rest) = matchesFrom (some c) (offset + 1) rest := by
  rw [matchesFrom]
  split
  · next hsome =>
    rw [h] at hsome
    cases hsome
  · rfl

theorem matchesFrom_of_some {before : Option CodeUnit} {t name after : Text}
    {category : SymbolCategory} (h : here? before t = some (category, name, after))
    (offset : Nat) :
    matchesFrom before offset t = ⟨category, name, offset⟩ ::
      matchesFrom name.getLast? (offset + (t.length - after.length)) after := by
  cases t with
  | nil => exact absurd (length_lt_of_here? h) (Nat.not_lt_zero _)
  | cons c rest =>
    rw [matchesFrom]
    split
    · next hsome =>
      rw [h] at hsome
      cases hsome
      rfl
    · next hnone =>
      rw [h] at hnone
      cases hnone

/-- What the search finds in the rest of a line, behind what it has passed. -/
structure Finds (front t : Text) (ws : List Writing) : Prop where
  definitions_eq : ws.map Writing.definition = matchesFrom front.getLast? front.length t
  line_eq : ∀ w ∈ ws, w.line = front ++ t
  length_le : ∀ w ∈ ws, front.length ≤ w.start
  previous_eq : ∀ w ∈ ws, w.previous.any isWordUnit = false
  next_eq : ∀ w ∈ ws, w.next.any isNameUnit = false
  /-- They do not overlap. -/
  apart : ws.Pairwise fun v w => v.stop ≤ w.start
  /-- None is left out but those that start within another one. -/
  covers : ∀ w : Writing, w.line = front ++ t → front.length ≤ w.start →
    w.previous.any isWordUnit = false → ∃ v ∈ ws, v.start ≤ w.start ∧ w.start < v.stop

theorem Writing.eq_of_line_eq {w : Writing} {front t : Text} (hline : w.line = front ++ t)
    (hstart : w.start = front.length) : w.before = front ∧ w.tail = t :=
  List.append_inj hline hstart

/-- Nothing starts at the end of a line. -/
theorem Finds.nil (front : Text) : Finds front [] [] := by
  refine ⟨?_, by simp, by simp, by simp, by simp, .nil, fun w hline hle _ => ?_⟩
  · rw [matchesFrom]
    rfl
  · have hlt := w.start_lt_stop
    have hstop := w.stop_le_length
    rw [hline, List.append_nil] at hstop
    omega

/-- Where nothing is found, the search goes on at the next unit. -/
theorem Finds.skip {front rest : Text} {c : CodeUnit} {ws : List Writing}
    (hhere : here? front.getLast? (c :: rest) = none) (h : Finds (front ++ [c]) rest ws) :
    Finds front (c :: rest) ws := by
  have hsplit : front ++ [c] ++ rest = front ++ c :: rest := (List.append_cons ..).symm
  have hlength : (front ++ [c]).length = front.length + 1 := List.length_append
  refine ⟨?_, ?_, fun w hw => ?_, h.previous_eq, h.next_eq, h.apart,
    fun w hline hle hprevious => ?_⟩
  · rw [matchesFrom_of_none hhere, h.definitions_eq, List.getLast?_concat, hlength]
  · rw [← hsplit]
    exact h.line_eq
  · have := h.length_le w hw
    omega
  · rcases Nat.eq_or_lt_of_le hle with heq | hlt
    · -- at this very place something would have been found
      obtain ⟨hbefore, htail⟩ := Writing.eq_of_line_eq hline heq.symm
      have hsome := isSome_here? w hprevious
      rw [hbefore, htail, hhere] at hsome
      cases hsome
    · exact h.covers w (hline.trans hsplit.symm) (by omega) hprevious

/-- Behind a definition, the search goes on where its name ends. -/
theorem Finds.cons {front t : Text} {found : SymbolCategory × Text × Text} {w : Writing}
    {ws : List Writing} (hhere : here? front.getLast? t = some found) (hw : w.IsRead front t found)
    (hprevious : w.previous.any isWordUnit = false) (h : Finds w.passed w.after ws) :
    Finds front t (w :: ws) := by
  rw [hw.found_eq] at hhere
  have hline : w.line = front ++ t := by
    rw [Writing.line, hw.before_eq, hw.tail_eq]
  have hsplit : w.passed ++ w.after = front ++ t := w.passed_append.trans hline
  have hstart : w.start = front.length := congrArg List.length hw.before_eq
  have hstop := w.length_passed
  have hlt := w.start_lt_stop
  have hlength : front.length + (t.length - w.after.length) = w.passed.length := by
    have hlong := length_lt_of_here? hhere
    have hsum := congrArg List.length hsplit
    rw [List.length_append, List.length_append] at hsum
    omega
  refine ⟨?_, ?_, ?_, ?_, ?_, ?_, fun v hv hle hprevious => ?_⟩
  · rw [matchesFrom_of_some hhere, hlength, ← w.getLast?_passed, ← h.definitions_eq,
      List.map_cons, Writing.definition, hstart]
  · rw [List.forall_mem_cons]
    exact ⟨hline, fun v hv => (h.line_eq v hv).trans hsplit⟩
  · rw [List.forall_mem_cons]
    refine ⟨Nat.le_of_eq hstart.symm, fun v hv => ?_⟩
    have := h.length_le v hv
    omega
  · rw [List.forall_mem_cons]
    exact ⟨hprevious, h.previous_eq⟩
  · rw [List.forall_mem_cons]
    exact ⟨hw.next_eq, h.next_eq⟩
  · rw [List.pairwise_cons]
    exact ⟨fun v hv => hstop ▸ h.length_le v hv, h.apart⟩
  · by_cases hin : v.start < w.stop
    · exact ⟨w, List.mem_cons_self, by omega, hin⟩
    · obtain ⟨u, hu, huv⟩ := h.covers v (hv.trans hsplit.symm) (by omega) hprevious
      exact ⟨u, List.mem_cons_of_mem w hu, huv⟩

/-- **What the search finds.** -/
theorem exists_finds (front t : Text) : ∃ ws, Finds front t ws := by
  induction hn : t.length using Nat.strong_induction_on generalizing front t with
  | _ n ih =>
    subst hn
    cases hhere : here? front.getLast? t with
    | none =>
      cases t with
      | nil => exact ⟨[], .nil front⟩
      | cons c rest =>
        obtain ⟨ws, hws⟩ := ih rest.length (Nat.lt_succ_self _) (front ++ [c]) rest rfl
        exact ⟨ws, hws.skip hhere⟩
    | some found =>
      obtain ⟨w, hw, hprevious⟩ := exists_isRead_of_here? hhere
      have hlt : w.after.length < t.length := by
        rw [hw.found_eq] at hhere
        exact length_lt_of_here? hhere
      obtain ⟨ws, hws⟩ := ih w.after.length hlt w.passed w.after rfl
      exact ⟨w :: ws, hws.cons hhere hw hprevious⟩

/-- The definitions of a line as they are written in it, up to the comment. -/
structure Reports (line : Text) (ws : List Writing) : Prop where
  definitions_eq : ws.map Writing.definition = inLine line
  line_eq : ∀ w ∈ ws, w.line = line
  lt_commentStart : ∀ w ∈ ws, w.start < commentStart line
  previous_eq : ∀ w ∈ ws, w.previous.any isWordUnit = false
  next_eq : ∀ w ∈ ws, w.next.any isNameUnit = false
  apart : ws.Pairwise fun v w => v.stop ≤ w.start
  covers : ∀ w : Writing, w.line = line → w.start < commentStart line →
    w.previous.any isWordUnit = false → ∃ v ∈ ws, v.start ≤ w.start ∧ w.start < v.stop

/-- **What is reported of a line.** -/
theorem exists_reports (line : Text) : ∃ ws, Reports line ws := by
  obtain ⟨ws, h⟩ := exists_finds [] line
  -- the search is broken off at the first definition behind the start of the comment
  have hmem {w : Writing} :
      w ∈ ws.takeWhile (fun w => decide (w.start < commentStart line)) ↔
        w ∈ ws ∧ w.start < commentStart line := by
    rw [mem_takeWhile_iff, decide_eq_true_eq]
    refine h.apart.imp fun {v w} hvw hw => ?_
    have := v.start_lt_stop
    simp only [decide_eq_true_eq] at hw ⊢
    omega
  refine ⟨ws.takeWhile fun w => decide (w.start < commentStart line), ?_, fun w hw => ?_,
    fun w hw => (hmem.mp hw).2, fun w hw => h.previous_eq w (hmem.mp hw).1,
    fun w hw => h.next_eq w (hmem.mp hw).1, h.apart.sublist (List.takeWhile_sublist _),
    fun w hline hlt hprevious => ?_⟩
  · have hdefinitions := h.definitions_eq
    rw [List.getLast?_nil, List.length_nil] at hdefinitions
    rw [inLine, ← hdefinitions, List.takeWhile_map]
    rfl
  · exact h.line_eq w (hmem.mp hw).1
  · obtain ⟨v, hv, hle, hstop⟩ := h.covers w hline (Nat.zero_le _) hprevious
    exact ⟨v, hmem.mpr ⟨hv, by omega⟩, hle, hstop⟩

/-! ### All lines -/

/-- What is reported of some lines, the first of which has a number: the lines' numbers, and the
definitions as they are written. -/
structure ReportsFrom (number : Nat) (ls : List Text) (found : List (Nat × Writing)) : Prop where
  definitions_eq :
    found.map (fun f => ⟨f.2.category, f.2.name, f.1⟩) = ofLines number ls
  le_number : ∀ f ∈ found, number ≤ f.1
  /-- Each line is searched by itself. -/
  exists_reports : ∀ i line, ls[i]? = some line →
    ∃ ws, Reports line ws ∧ ∀ w, (number + i, w) ∈ found ↔ w ∈ ws
  exists_line : ∀ f ∈ found, ∃ i line, ls[i]? = some line ∧ f.1 = number + i
  ordered : found.Pairwise fun f g => f.1 < g.1 ∨ f.1 = g.1 ∧ f.2.stop ≤ g.2.start

theorem mem_map_number {number : Nat} {ws : List Writing} {f : Nat × Writing} :
    f ∈ ws.map (fun w => (number, w)) ↔ f.1 = number ∧ f.2 ∈ ws := by
  constructor
  · intro hf
    obtain ⟨w, hw, rfl⟩ := List.mem_map.mp hf
    exact ⟨rfl, hw⟩
  · rintro ⟨rfl, hw⟩
    exact List.mem_map.mpr ⟨f.2, hw, rfl⟩

/-- What is reported of one more line comes first. -/
theorem ReportsFrom.cons {number : Nat} {line : Text} {ls : List Text} {ws : List Writing}
    {found : List (Nat × Writing)} (hws : Reports line ws) (h : ReportsFrom (number + 1) ls found) :
    ReportsFrom number (line :: ls) (ws.map (fun w => (number, w)) ++ found) where
  definitions_eq := by
    rw [List.map_append, h.definitions_eq, ofLines, ← hws.definitions_eq, List.map_map,
      List.map_map]
    rfl
  le_number f hf := by
    rcases List.mem_append.mp hf with hf | hf
    · exact Nat.le_of_eq (mem_map_number.mp hf).1.symm
    · have := h.le_number f hf
      omega
  exists_reports i l hl := by
    -- the numbers tell the definitions of this line from those of the others
    cases i with
    | zero =>
      cases hl
      refine ⟨ws, hws, fun w => ?_⟩
      have hnot : (number, w) ∉ found := fun hw => by
        have := h.le_number _ hw
        omega
      rw [Nat.add_zero, List.mem_append, or_iff_left hnot, mem_map_number, and_iff_right rfl]
    | succ i =>
      obtain ⟨vs, hvs, hmem⟩ := h.exists_reports i l hl
      refine ⟨vs, hvs, fun w => ?_⟩
      have hnot : (number + (i + 1), w) ∉ ws.map fun w => (number, w) := fun hw => by
        have := (mem_map_number.mp hw).1
        omega
      rw [List.mem_append, or_iff_right hnot, ← hmem, Nat.add_right_comm]
      rfl
  exists_line f hf := by
    rcases List.mem_append.mp hf with hf | hf
    · exact ⟨0, line, rfl, (mem_map_number.mp hf).1⟩
    · obtain ⟨i, l, hl, hi⟩ := h.exists_line f hf
      exact ⟨i + 1, l, hl, by omega⟩
  ordered := by
    refine List.pairwise_append.mpr ⟨?_, h.ordered, fun f hf g hg => ?_⟩
    · exact List.pairwise_map.mpr (hws.apart.imp fun hvw => .inr ⟨rfl, hvw⟩)
    · have hf' := (mem_map_number.mp hf).1
      have := h.le_number g hg
      left
      omega

theorem exists_reportsFrom (number : Nat) (ls : List Text) :
    ∃ found, ReportsFrom number ls found := by
  induction ls generalizing number with
  | nil => exact ⟨[], rfl, by simp, by simp, by simp, .nil⟩
  | cons line ls ih =>
    obtain ⟨ws, hws⟩ := exists_reports line
    obtain ⟨found, h⟩ := ih (number + 1)
    exact ⟨_, .cons hws h⟩

/-- Where each definition is written, and between what. -/
theorem ReportsFrom.spec {ls : List Text} {found : List (Nat × Writing)}
    (h : ReportsFrom 0 ls found) (f : Nat × Writing) (hf : f ∈ found) :
    ls[f.1]? = some f.2.line ∧ f.2.start < commentStart f.2.line ∧
      f.2.previous.any isWordUnit = false ∧ f.2.next.any isNameUnit = false := by
  obtain ⟨i, line, hl, hi⟩ := h.exists_line f hf
  obtain ⟨ws, hws, hmem⟩ := h.exists_reports i line hl
  rw [Nat.zero_add] at hi hmem
  subst hi
  have hmem := (hmem f.2).mp hf
  rw [hws.line_eq f.2 hmem]
  exact ⟨hl, hws.lt_commentStart f.2 hmem, hws.previous_eq f.2 hmem, hws.next_eq f.2 hmem⟩

/-- Two definitions do not overlap. -/
def Apart (f g : Nat × Writing) : Prop :=
  f.1 = g.1 → f.2.stop ≤ g.2.start ∨ g.2.stop ≤ f.2.start

instance : Std.Symm Apart := ⟨fun _ _ hfg heq => (hfg heq.symm).symm⟩

/-- No definition of a line starts within another one. -/
theorem ReportsFrom.not_startsWithin {number : Nat} {ls : List Text} {found : List (Nat × Writing)}
    (h : ReportsFrom number ls found) {f g : Nat × Writing} (hf : f ∈ found) (hg : g ∈ found)
    (hfg : g.1 = f.1) : ¬ f.2.StartsWithin g.2 := by
  rintro ⟨hlt, hstop⟩
  have hne : f ≠ g := by
    rintro rfl
    exact Nat.lt_irrefl _ hlt
  have hpairs : found.Pairwise Apart := h.ordered.imp fun hfg heq => by omega
  have hf' := f.2.start_lt_stop
  have hapart := hpairs.forall hf hg hne hfg.symm
  omega

/-- A reported word that is part of a longer identifier stands in a call, directly behind a question
mark. -/
theorem Writing.isMarkedCall_of_not_whole {w : Writing}
    (hprevious : w.previous.any isWordUnit = false) (hnext : w.next.any isNameUnit = false)
    (h : ¬ w.Whole) : w.IsMarkedCall := by
  have hname : w.previous.any isNameUnit = true := by
    rw [Whole, and_iff_left hnext, Bool.not_eq_false] at h
    exact h
  have hlead : w.lead = [] := by
    obtain ⟨category, before, lead, word, gap, name, after, hmem, hstyled, hisName⟩ := w
    cases hstyled with
    | list hblanks hne hgap =>
      rw [previous_of_list _ rfl hblanks] at hname
      cases hname
    | call hblanks => rfl
  refine ⟨hlead, ?_⟩
  cases hp : w.previous with
  | none =>
    rw [hp] at hname
    cases hname
  | some c =>
    rw [hp, Option.any_some] at hname hprevious
    rw [eq_questionMark hname hprevious]

/-- Where a call stands, no list does. -/
theorem Writing.lead_eq_nil {v w : Writing} (htail : v.tail = w.tail) (h : w.lead = []) :
    v.lead = [] := by
  obtain ⟨category, before, lead, word, gap, name, after, hmem, hstyled, hisName⟩ := v
  cases hstyled with
  | call hblanks => rfl
  | list hblanks hne hgap =>
    obtain ⟨c, hc, hword⟩ := exists_head?_word w.word_mem (w.gap ++ (w.name ++ w.after))
    rw [tail, tail, h, List.nil_append] at htail
    rw [← htail] at hc
    cases hc
    cases hword

theorem Writing.IsMarkedCall.previous_eq {w : Writing} (h : w.IsMarkedCall) :
    w.previous.any isWordUnit = false := by
  rw [h.2]
  rfl

theorem Writing.IsMarkedCall.not_whole {w : Writing} (h : w.IsMarkedCall) : ¬ w.Whole := by
  intro hwhole
  have := hwhole.1
  rw [h.2] at this
  cases this

/-- A call behind a question mark is reported, or it starts within what is reported. -/
theorem Reports.isMarkedCall_or {line : Text} {ws : List Writing} (h : Reports line ws)
    {w : Writing} (hline : w.line = line) (hlt : w.start < commentStart line)
    (hcall : w.IsMarkedCall) : ∃ v ∈ ws, v.IsMarkedCall ∨ w.StartsWithin v := by
  obtain ⟨v, hv, hle, hstop⟩ := h.covers w hline hlt hcall.previous_eq
  refine ⟨v, hv, ?_⟩
  rcases Nat.eq_or_lt_of_le hle with heq | hlt
  · left
    obtain ⟨hbefore, htail⟩ := Writing.eq_of_line_eq ((h.line_eq v hv).trans hline.symm) heq
    have hlead := Writing.lead_eq_nil htail hcall.1
    refine ⟨hlead, ?_⟩
    rw [v.previous_of_call hlead, hbefore, ← w.previous_of_call hcall.1, hcall.2]
  · exact .inr ⟨hlt, hstop⟩

/-- **Definitions are reported** in the order of their lines and places, without overlap. Each is
written in its line, before the comment: a defining word of its category and its name, in one of two
styles. The name is not part of a longer identifier, and no letter, digit or low line stands
directly before the word. No question mark does so either exactly if every call directly behind a
question mark, before the comment of its line, starts within another definition. -/
theorem words_whole_iff (t : Text) :
    ∃ found : List (Nat × Writing),
      found.map (fun f => ⟨f.2.category, f.2.name, f.1⟩) = ofText t ∧
      (∀ f ∈ found, (lines t)[f.1]? = some f.2.line ∧ f.2.start < commentStart f.2.line ∧
        f.2.previous.any isWordUnit = false ∧ f.2.next.any isNameUnit = false) ∧
      found.Pairwise (fun f g => f.1 < g.1 ∨ f.1 = g.1 ∧ f.2.stop ≤ g.2.start) ∧
      ((∀ f ∈ found, f.2.Whole) ↔
        ∀ (number : Nat) (w : Writing), (lines t)[number]? = some w.line →
          w.start < commentStart w.line → w.IsMarkedCall →
          ∃ f ∈ found, f.1 = number ∧ w.StartsWithin f.2) := by
  obtain ⟨found, h⟩ := exists_reportsFrom 0 (lines t)
  refine ⟨found, h.definitions_eq, h.spec, h.ordered, fun hwhole number w hl hlt hcall => ?_,
    fun hwithin f hf => ?_⟩
  · obtain ⟨ws, hws, hmem⟩ := h.exists_reports number w.line hl
    rw [Nat.zero_add] at hmem
    obtain ⟨v, hv, hcase⟩ := hws.isMarkedCall_or rfl hlt hcall
    have hfound := (hmem v).mpr hv
    exact ⟨_, hfound, rfl, hcase.resolve_left fun hv => hv.not_whole (hwhole _ hfound)⟩
  · by_contra hnot
    obtain ⟨hl, hlt, hprevious, hnext⟩ := h.spec f hf
    have hcall := Writing.isMarkedCall_of_not_whole hprevious hnext hnot
    obtain ⟨g, hg, hfg, hin⟩ := hwithin f.1 f.2 hl hlt hcall
    exact h.not_startsWithin hf hg hfg hin

/-- **The end of a word that is reported** as a defining word: it stands behind a question mark. -/
theorem reports_part_of_word :
    ¬ ∀ t, ∀ d ∈ ofText t, ∃ w : Writing, (lines t)[d.line]? = some w.line ∧
      w.category = d.category ∧ w.name = d.name ∧ w.start < commentStart w.line ∧ w.Whole := by
  intro h
  have hreported : (⟨.functions, Text.ofString "x", 0⟩ : SourceDefinition) ∈
      ofText (Text.ofString "?defun(x)") := by
    decide +kernel
  obtain ⟨w, hline, -, -, -, hwhole, -⟩ := h _ _ hreported
  have hline : Text.ofString "?defun(x)" = w.line := Option.some.inj hline
  -- there is one place only at which a defining word stands
  have hplace : ∀ i < 10, ∀ p ∈ definingWords,
      p.1 <+: (Text.ofString "?defun(x)").drop i → i = 1 := by
    decide
  have hsplit : Text.ofString "?defun(x)" =
      (w.before ++ w.lead) ++ (w.word ++ (w.gap ++ (w.name ++ w.after))) := by
    rw [hline, Writing.line, Writing.tail, List.append_assoc]
  have hlength := congrArg List.length hsplit
  rw [List.length_append] at hlength
  have hone := hplace (w.before ++ w.lead).length
    (by have : (Text.ofString "?defun(x)").length = 9 := rfl; omega) _ w.word_mem
    (by rw [hsplit, List.drop_left]; exact List.prefix_append _ _)
  have htake := congrArg (List.take (w.before ++ w.lead).length) hsplit
  rw [List.take_left, hone] at htake
  rw [Writing.previous, ← htake] at hwhole
  cases hwhole

end SourceDefinition

end SexpEditing
