import Mathlib.Data.List.Infix
import Mathlib.Data.List.Pairwise
import SexpEditing.Symbol.Prefixes

/-!
# The longest prefix decides

A rule table is sorted by the length of the prefixes, and the sorting keeps the order of rules for
prefixes of the same length. Two prefixes of one name that are equally long are equal. So the first
rule that fits a name is the first one, in the order in which the rules were given, of those for the
longest prefix that fits.

## Main definitions

* `CategoryPrefixes.startsOf`: the prefixes of a category that give rules
* `CategoryPrefixes.Decides`: a prefix of a category decides on a name

## Main results

* `SymbolCategory.find?_all_eq_some_iff`: the first category with a property
* `PrefixRules.of_find?_ofList`: the rule that is tried first
* `CategoryPrefixes.classify_eq_some_iff`, `CategoryPrefixes.classify_eq_none_iff`: the category of a
  name
-/

namespace SexpEditing

namespace SymbolCategory

variable {c : SymbolCategory}

theorem number_inj {c' : SymbolCategory} (h : c.number = c'.number) : c = c' := by
  revert h
  cases c <;> cases c' <;> decide

theorem pairwise_all : all.Pairwise fun c c' => c.number ≤ c'.number := by decide

/-- The first category with a property. -/
theorem find?_all_eq_some_iff {p : SymbolCategory → Bool} :
    all.find? p = some c ↔
      p c = true ∧ ∀ earlier, earlier.number < c.number → p earlier = false := by
  have hfirst {c : SymbolCategory} (h : all.find? p = some c) :
      p c = true ∧ ∀ earlier, earlier.number < c.number → p earlier = false := by
    obtain ⟨hc, before, after, hall, hbefore⟩ := List.find?_eq_some_iff_append.mp h
    refine ⟨hc, fun earlier hlt => ?_⟩
    have hmem := hall ▸ mem_all earlier
    have horder := (List.pairwise_append.mp (hall ▸ pairwise_all)).2.1
    rcases List.mem_append.mp hmem with hmem | hmem
    · simpa using hbefore earlier hmem
    · rcases List.mem_cons.mp hmem with rfl | hmem
      · exact absurd hlt (Nat.lt_irrefl _)
      · exact absurd hlt (Nat.not_lt_of_le (List.rel_of_pairwise_cons horder hmem))
  refine ⟨hfirst, fun ⟨hc, hearlier⟩ => ?_⟩
  cases hfind : all.find? p with
  | none => exact absurd hc (List.find?_eq_none.mp hfind c (mem_all c))
  | some c' =>
    obtain ⟨hc', hearlier'⟩ := hfirst hfind
    rcases Nat.lt_trichotomy c'.number c.number with hlt | heq | hlt
    · rw [hearlier c' hlt] at hc'
      cases hc'
    · rw [number_inj heq]
    · rw [hearlier' c hlt] at hc
      cases hc

end SymbolCategory

namespace PrefixRules

/-- One prefix is no shorter than another. -/
def noShorter (a b : PrefixRule) : Bool := decide (b.start.length ≤ a.start.length)

theorem noShorter_iff {a b : PrefixRule} :
    noShorter a b = true ↔ b.start.length ≤ a.start.length := decide_eq_true_iff

theorem noShorter_trans (a b c : PrefixRule) (hab : noShorter a b = true)
    (hbc : noShorter b c = true) : noShorter a c = true :=
  noShorter_iff.mpr (Nat.le_trans (noShorter_iff.mp hbc) (noShorter_iff.mp hab))

theorem noShorter_total (a b : PrefixRule) : (noShorter a b || noShorter b a) = true := by
  rw [Bool.or_eq_true, noShorter_iff, noShorter_iff]
  exact Nat.le_total _ _

variable {rules : List PrefixRule}

theorem mem_ofList {r : PrefixRule} : r ∈ (ofList rules).rules ↔ r ∈ rules := List.mem_mergeSort

theorem pairwise_ofList : (ofList rules).rules.Pairwise fun a b => noShorter a b = true :=
  List.pairwise_mergeSort noShorter_trans noShorter_total rules

/-- **The sorting is stable**: rules for one prefix keep their order. -/
theorem filter_ofList (start : Text) :
    (ofList rules).rules.filter (·.start == start) = rules.filter (·.start == start) := by
  have hequal : (rules.filter (·.start == start)).Pairwise fun a b => noShorter a b = true := by
    refine List.pairwise_of_forall_mem_list fun a ha b hb => ?_
    have ha : a.start = start := by simpa using (List.mem_filter.mp ha).2
    have hb : b.start = start := by simpa using (List.mem_filter.mp hb).2
    rw [noShorter_iff, ha, hb]
  -- they stand in the sorted list in this order, and as often
  have hsub := (List.sublist_mergeSort noShorter_trans noShorter_total hequal
    List.filter_sublist).filter (·.start == start)
  simp only [List.filter_filter, Bool.and_self] at hsub
  have hperm := (List.mergeSort_perm rules noShorter).filter (·.start == start)
  exact (hsub.eq_of_length hperm.length_eq.symm).symm

/-- Equally long prefixes of a name are equal. -/
theorem eq_of_fits {name start other : Text} (h : start <+: name) (h' : other <+: name)
    (hlen : start.length = other.length) : start = other :=
  (List.prefix_of_prefix_length_le h h' hlen.le).eq_of_length hlen

/-- **The rule that is tried first**, of those that fit a name, is the first one for the longest
prefix. -/
theorem of_find?_ofList {name : Text} {r : PrefixRule}
    (h : (ofList rules).rules.find? (·.start.isPrefixOf name) = some r) :
    r.start <+: name ∧ (∀ q ∈ rules, q.start <+: name → q.start.length ≤ r.start.length) ∧
      (rules.filter (·.start == r.start)).head? = some r := by
  obtain ⟨hfits, before, after, hsplit, hbefore⟩ := List.find?_eq_some_iff_append.mp h
  rw [List.isPrefixOf_iff_prefix] at hfits
  have hearlier : ∀ q ∈ before, ¬q.start <+: name := by
    intro q hq
    have hq := hbefore q hq
    rwa [Bool.not_eq_true', ← Bool.not_eq_true, List.isPrefixOf_iff_prefix] at hq
  refine ⟨hfits, fun q hq hqfits => ?_, ?_⟩
  · rw [← mem_ofList, hsplit, List.mem_append, List.mem_cons] at hq
    rcases hq with hq | rfl | hq
    · exact absurd hqfits (hearlier q hq)
    · exact Nat.le_refl _
    · have hsorted : (before ++ r :: after).Pairwise fun a b => noShorter a b = true :=
        hsplit ▸ pairwise_ofList
      exact noShorter_iff.mp (List.rel_of_pairwise_cons (List.pairwise_append.mp hsorted).2.1 hq)
  · -- a rule for the same prefix would fit as well, so none stands before it
    have hnone : before.filter (·.start == r.start) = [] := by
      refine List.filter_eq_nil_iff.mpr fun q hq heq => hearlier q hq ?_
      rwa [beq_iff_eq.mp heq]
    rw [← filter_ofList, hsplit, List.filter_append, hnone, List.nil_append,
      List.filter_cons_of_pos (by simp), List.head?_cons]

end PrefixRules

namespace CategoryPrefixes

variable (p : CategoryPrefixes)

/-- The prefixes of a category that give rules: all that are not empty. -/
def startsOf (c : SymbolCategory) : List Text :=
  ((p.get? c).getD []).filter fun start => !start.isEmpty

/-- A prefix of a category decides on a name: of all that fit it is the longest, and no earlier
category has the same one. -/
def Decides (c : SymbolCategory) (name : Text) : Prop :=
  ∃ start ∈ p.startsOf c, start <+: name ∧ ∀ c', ∀ other ∈ p.startsOf c', other <+: name →
    other.length < start.length ∨ other = start ∧ c.number ≤ c'.number

theorem mem_ruleList {r : PrefixRule} :
    r ∈ p.ruleList ↔ ∃ c, r.category = some c ∧ r.start ∈ p.startsOf c := by
  obtain ⟨category, start⟩ := r
  rw [ruleList, List.mem_flatMap]
  constructor
  · rintro ⟨c, -, hr⟩
    obtain ⟨_, hstart, ⟨⟩⟩ := List.mem_map.mp hr
    exact ⟨c, rfl, hstart⟩
  · rintro ⟨c, hc, hstart⟩
    cases hc
    exact ⟨c, SymbolCategory.mem_all c, List.mem_map_of_mem hstart⟩

/-- The rules stand in the order of the categories. -/
theorem pairwise_ruleList :
    p.ruleList.Pairwise fun a b =>
      ∀ c ∈ a.category, ∀ c' ∈ b.category, c.number ≤ c'.number := by
  rw [ruleList, List.pairwise_flatMap]
  constructor
  · intro c _
    refine List.pairwise_of_forall_mem_list fun a ha b hb => ?_
    obtain ⟨_, -, rfl⟩ := List.mem_map.mp ha
    obtain ⟨_, -, rfl⟩ := List.mem_map.mp hb
    rintro _ ⟨⟩ _ ⟨⟩
    exact Nat.le_refl _
  · refine SymbolCategory.pairwise_all.imp fun {c c'} hle a ha b hb => ?_
    obtain ⟨_, -, rfl⟩ := List.mem_map.mp ha
    obtain ⟨_, -, rfl⟩ := List.mem_map.mp hb
    rintro _ ⟨⟩ _ ⟨⟩
    exact hle

variable {p} {c c' : SymbolCategory} {name : Text}

/-- No two categories decide on a name. -/
theorem Decides.unique (h : p.Decides c name) (h' : p.Decides c' name) : c = c' := by
  obtain ⟨start, hstart, hfits, hlongest⟩ := h
  obtain ⟨start', hstart', hfits', hlongest'⟩ := h'
  rcases hlongest c' start' hstart' hfits' with hlt | ⟨rfl, hle⟩
  · rcases hlongest' c start hstart hfits with hlt' | ⟨rfl, -⟩
    · omega
    · exact absurd hlt (Nat.lt_irrefl _)
  · rcases hlongest' c start' hstart hfits with hlt' | ⟨-, hge⟩
    · exact absurd hlt' (Nat.lt_irrefl _)
    · exact SymbolCategory.number_inj (Nat.le_antisymm hle hge)

/-- A category that a name is given has the prefix that decides. -/
theorem decides_of_classify (h : p.rules.classify name = some c) : p.Decides c name := by
  rw [PrefixRules.classify, rules, Option.bind_eq_some_iff] at h
  obtain ⟨⟨_, start⟩, hfind, rfl⟩ := h
  obtain ⟨hfits, hlongest, hhead⟩ := PrefixRules.of_find?_ofList hfind
  obtain ⟨rest, hrest⟩ := List.head?_eq_some_iff.mp hhead
  have hmem : ⟨some c, start⟩ ∈ p.ruleList := (List.mem_filter.mp (List.mem_of_head? hhead)).1
  obtain ⟨_, ⟨⟩, hstart⟩ := p.mem_ruleList.mp hmem
  refine ⟨start, hstart, hfits, fun c' other hother hofits => ?_⟩
  have hrule : ⟨some c', other⟩ ∈ p.ruleList := p.mem_ruleList.mpr ⟨c', rfl, hother⟩
  rcases Nat.lt_or_eq_of_le (hlongest _ hrule hofits) with hlt | hlen
  · exact .inl hlt
  · -- a rule for the same prefix does not come earlier
    obtain rfl := PrefixRules.eq_of_fits hofits hfits hlen
    have hsame : ⟨some c', other⟩ ∈ p.ruleList.filter (·.start == other) :=
      List.mem_filter.mpr ⟨hrule, by simp⟩
    have hsorted := p.pairwise_ruleList.filter (·.start == other)
    rw [hrest] at hsame hsorted
    refine .inr ⟨rfl, ?_⟩
    rcases List.mem_cons.mp hsame with heq | hsame
    · cases heq
      exact Nat.le_refl _
    · exact List.rel_of_pairwise_cons hsorted hsame c rfl c' rfl

/-- A name of which some prefix fits is given a category. -/
theorem exists_classify {start : Text} (hstart : start ∈ p.startsOf c) (hfits : start <+: name) :
    ∃ c', p.rules.classify name = some c' := by
  have hrule : ⟨some c, start⟩ ∈ (rules p).rules :=
    PrefixRules.mem_ofList.mpr (p.mem_ruleList.mpr ⟨c, rfl, hstart⟩)
  rw [PrefixRules.classify]
  cases hfind : p.rules.rules.find? (·.start.isPrefixOf name) with
  | none =>
    have hnone := List.find?_eq_none.mp hfind _ hrule
    exact absurd (List.isPrefixOf_iff_prefix.mpr hfits) hnone
  | some r =>
    have hr := PrefixRules.mem_ofList.mp (List.mem_of_find?_eq_some hfind)
    obtain ⟨c', hc', -⟩ := p.mem_ruleList.mp hr
    exact ⟨c', hc'⟩

/-- **The category of a name** is the one whose prefix decides. -/
theorem classify_eq_some_iff : p.rules.classify name = some c ↔ p.Decides c name := by
  refine ⟨decides_of_classify, fun h => ?_⟩
  obtain ⟨start, hstart, hfits, -⟩ := id h
  obtain ⟨c', hc'⟩ := exists_classify hstart hfits
  rw [hc', h.unique (decides_of_classify hc')]

/-- A name has no category if no prefix fits. -/
theorem classify_eq_none_iff :
    p.rules.classify name = none ↔ ∀ c, ∀ start ∈ p.startsOf c, ¬start <+: name := by
  constructor
  · intro h c start hstart hfits
    obtain ⟨c', hc'⟩ := exists_classify hstart hfits
    cases h.symm.trans hc'
  · intro h
    cases hc : p.rules.classify name with
    | none => rfl
    | some c =>
      obtain ⟨start, hstart, hfits, -⟩ := decides_of_classify hc
      exact absurd hfits (h c start hstart)

end CategoryPrefixes

end SexpEditing
