import SexpEditing.Catalog.Basic
import SexpEditing.Proofs.Symbol.Prefixes

/-!
# Rules for inherited prefixes

Prefixes that are inherited need not be strings, and where one of them has no rank, the place of
every rule depends on the way in which they are sorted. That decides which of several rules is tried
first. It does not decide which rules there are: sorting by runs loses none and doubles none. So a
name is classified if some prefix fits, and by one that fits, whatever the ranks.

## Main results

* `CatalogSettings.prefixRules_perm`, `CatalogSettings.mem_prefixRules_iff`: the rules that there are
* `CatalogSettings.classify_prefixRules_eq_none_iff`, `CatalogSettings.exists_prefix_of_classify`:
  the names that are classified, and the categories that they may have
-/

namespace SexpEditing

namespace CatalogSettings

variable {s : CatalogSettings} {inherited : List (SymbolCategory × RankedPrefix)}
  {c : SymbolCategory} {p : SymbolCategory × RankedPrefix}

theorem mem_rankedPrefixes_of_set {starts : List Text}
    (h : s.categoryPrefixes.get? c = some starts) :
    p ∈ s.rankedPrefixes inherited c ↔ ∃ start ∈ starts, start ≠ [] ∧ p = (c, .ofText start) := by
  simp only [rankedPrefixes, h, List.mem_map, List.mem_filter, Bool.not_eq_true',
    List.isEmpty_eq_false_iff]
  constructor
  · rintro ⟨start, ⟨hmem, hne⟩, rfl⟩
    exact ⟨start, hmem, hne, rfl⟩
  · rintro ⟨start, hmem, hne, rfl⟩
    exact ⟨start, ⟨hmem, hne⟩, rfl⟩

theorem mem_rankedPrefixes_of_not_set (h : s.categoryPrefixes.get? c = none) :
    p ∈ s.rankedPrefixes inherited c ↔ p ∈ inherited ∧ p.1 = c := by
  simp only [rankedPrefixes, h, List.mem_filter, beq_iff_eq]

theorem fst_of_mem_rankedPrefixes (h : p ∈ s.rankedPrefixes inherited c) : p.1 = c := by
  cases hset : s.categoryPrefixes.get? c with
  | none => exact ((mem_rankedPrefixes_of_not_set hset).mp h).2
  | some starts =>
    obtain ⟨_, -, -, rfl⟩ := (mem_rankedPrefixes_of_set hset).mp h
    rfl

/-! ### The rules -/

/-- The rule of a prefix, if it has a start. -/
def ruleOf? (p : SymbolCategory × RankedPrefix) : Option PrefixRule :=
  p.2.start.map fun start => ⟨some p.1, start⟩

/-- Where nothing is inherited, the rules are those of the prefixes that are set. -/
theorem filterMap_ruleOf?_eq_ruleList (s : CatalogSettings) :
    (SymbolCategory.all.flatMap (s.rankedPrefixes [])).filterMap ruleOf? =
      s.categoryPrefixes.ruleList := by
  rw [List.filterMap_flatMap, CategoryPrefixes.ruleList]
  refine congrArg (List.flatMap · _) (funext fun c => ?_)
  rw [rankedPrefixes]
  cases s.categoryPrefixes.get? c with
  | none => rfl
  | some starts =>
    rw [List.filterMap_map]
    exact congrFun List.filterMap_eq_map _

/-- **Each prefix that has a start gives one rule**, and there are no others. -/
theorem prefixRules_perm (s : CatalogSettings)
    (inherited : List (SymbolCategory × RankedPrefix)) :
    (s.prefixRules inherited).rules.Perm
      ((SymbolCategory.all.flatMap (s.rankedPrefixes inherited)).filterMap ruleOf?) := by
  rw [prefixRules]
  -- rules are sorted by merging if nothing is inherited, and by runs otherwise
  split
  · next hnone =>
    rw [List.isEmpty_iff.mp hnone, filterMap_ruleOf?_eq_ruleList]
    exact List.mergeSort_perm _ _
  · exact PrefixRules.ofRanked_perm _

theorem mem_prefixRules_iff {rule : PrefixRule} :
    rule ∈ (s.prefixRules inherited).rules ↔ ∃ c, rule.category = some c ∧
      ∃ p ∈ s.rankedPrefixes inherited c, p.2.start = some rule.start := by
  obtain ⟨category, start⟩ := rule
  rw [(s.prefixRules_perm inherited).mem_iff, List.mem_filterMap]
  simp only [List.mem_flatMap, SymbolCategory.mem_all, true_and, ruleOf?, Option.map_eq_some_iff]
  constructor
  · rintro ⟨p, ⟨c, hp⟩, _, hstart, ⟨⟩⟩
    exact ⟨c, congrArg some (fst_of_mem_rankedPrefixes hp), p, hp, hstart⟩
  · rintro ⟨c, hc, p, hp, hstart⟩
    refine ⟨p, ⟨c, hp⟩, start, hstart, ?_⟩
    rw [fst_of_mem_rankedPrefixes hp, hc]

/-! ### Classifying names -/

/-- **A name has no category** if no prefix fits, be it set or inherited. -/
theorem classify_prefixRules_eq_none_iff {name : Text} :
    (s.prefixRules inherited).classify name = none ↔
      ∀ c, ∀ p ∈ s.rankedPrefixes inherited c, ∀ start ∈ p.2.start, ¬start <+: name := by
  rw [PrefixRules.classify, Option.bind_eq_none_iff]
  constructor
  · intro h c p hp start hstart hfits
    have hrule : ⟨some c, start⟩ ∈ (s.prefixRules inherited).rules :=
      mem_prefixRules_iff.mpr ⟨c, rfl, p, hp, hstart⟩
    cases hfind : (s.prefixRules inherited).rules.find? fun r => r.start.isPrefixOf name with
    | none =>
      exact List.find?_eq_none.mp hfind _ hrule (List.isPrefixOf_iff_prefix.mpr hfits)
    | some r =>
      -- every rule has a category
      obtain ⟨c', hc', -⟩ := mem_prefixRules_iff.mp (List.mem_of_find?_eq_some hfind)
      cases (h r hfind).symm.trans hc'
  · intro h r hfind
    obtain ⟨c, -, p, hp, hstart⟩ := mem_prefixRules_iff.mp (List.mem_of_find?_eq_some hfind)
    have hfits : r.start.isPrefixOf name = true := by simpa using List.find?_some hfind
    exact absurd (List.isPrefixOf_iff_prefix.mp hfits) (h c p hp _ hstart)

/-- **The category of a name** has a prefix that fits. -/
theorem exists_prefix_of_classify {name : Text}
    (h : (s.prefixRules inherited).classify name = some c) :
    ∃ p ∈ s.rankedPrefixes inherited c, ∃ start ∈ p.2.start, start <+: name := by
  rw [PrefixRules.classify, Option.bind_eq_some_iff] at h
  obtain ⟨r, hfind, hc⟩ := h
  obtain ⟨c', hc', p, hp, hstart⟩ := mem_prefixRules_iff.mp (List.mem_of_find?_eq_some hfind)
  obtain rfl := Option.some.inj (hc.symm.trans hc')
  have hfits : r.start.isPrefixOf name = true := by simpa using List.find?_some hfind
  exact ⟨p, hp, r.start, hstart, List.isPrefixOf_iff_prefix.mp hfits⟩

end CatalogSettings

end SexpEditing
