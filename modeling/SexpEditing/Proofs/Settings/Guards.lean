import SexpEditing.Proofs.Json.Members
import SexpEditing.Proofs.Number.Whole
import SexpEditing.Settings.Fields

/-!
# Guards of settings

A field of settings has a guard, which its value passes or not. A value that passes means
something, and this is what the field takes from it.

## Main definitions

* `SettingsGuard`: the guards, with the type of what their values mean
* `SettingsGuard.passes`, `SettingsGuard.Means`: which values pass, and what they mean
* `SettingsGuard.accepts`: the reader of values that belongs to a guard

## Main statements

* `SettingsGuard.isSome_accepts`: the values that are accepted are those that pass
* `SettingsGuard.means_of_accepts`: an accepted value is taken as what it means
-/

namespace SexpEditing

/-! ### Numbers and lists of strings -/

namespace Json

/-- Whether a value is a number that is whole, finite and not negative. -/
def isCount : Json → Bool
  | .number n =>
    decide (0 ≤ n.units ∧ n.units < Decimal.unitLimit ∧ n.units % powerOfTwo 1074 = 0)
  | _ => false

/-- Whether a value is read as a whole number. -/
def IsNumber (v : Json) (k : Int) : Prop :=
  ∃ n : Decimal, v = .number n ∧ n.units = k * powerOfTwo 1074

def isText : Json → Bool
  | .string _ => true
  | _ => false

def isTexts : Json → Bool
  | .array items => items.all isText
  | _ => false

theorem IsNumber.unique {v : Json} {k l : Int} (hk : v.IsNumber k) (hl : v.IsNumber l) : k = l := by
  obtain ⟨n, rfl, hn⟩ := hk
  obtain ⟨m, hm, hl⟩ := hl
  obtain rfl := Json.number.inj hm
  have hone : (powerOfTwo 1074 : Int) ≠ 0 := by have := powerOfTwo_pos 1074; omega
  exact Int.eq_of_mul_eq_mul_right hone (hn.symm.trans hl)

theorem isNumber_of_toCount? {v : Json} {k : Nat} (h : v.toCount? = some k) : v.IsNumber k := by
  cases v with
  | number n =>
    refine ⟨n, rfl, ?_⟩
    rw [((Decimal.nearestNat?_eq_some_iff n k).mp h).1, Int.natCast_mul]
  | _ => cases h

theorem isSome_toCount? (v : Json) : v.toCount?.isSome = v.isCount := by
  cases v with
  | number n =>
    refine Bool.eq_iff_iff.mpr ?_
    simp only [toCount?, isCount, Option.isSome_iff_exists, Decimal.nearestNat?_eq_some_iff,
      decide_eq_true_eq]
    constructor
    · rintro ⟨k, hk, hlt⟩
      rw [hk] at hlt ⊢
      exact ⟨Int.natCast_nonneg _, hlt, by rw [Int.natCast_mul]; exact Int.mul_emod_left _ _⟩
    · rintro ⟨hnonneg, hlt, hmod⟩
      obtain ⟨units, hunits⟩ := Int.eq_ofNat_of_zero_le hnonneg
      rw [hunits] at hmod hlt ⊢
      refine ⟨units / powerOfTwo 1074, ?_, hlt⟩
      rw [← Int.natCast_emod, Int.natCast_eq_zero] at hmod
      rw [Nat.div_mul_cancel (Nat.dvd_of_mod_eq_zero hmod)]
  | _ => rfl

theorem toText?_eq_some_iff {v : Json} {t : Text} : v.toText? = some t ↔ v = .string t := by
  cases v <;> simp [toText?]

theorem isSome_toText? (v : Json) : v.toText?.isSome = v.isText := by
  cases v <;> rfl

end Json

/-- Whether a reader that goes through a list comes to its end. -/
theorem isSome_mapM {α β : Type} (f : α → Option β) (l : List α) :
    (l.mapM f).isSome = l.all fun a => (f a).isSome := by
  induction l with
  | nil => rfl
  | cons a l ih =>
    rw [List.mapM_cons, List.all_cons, ← ih]
    cases f a <;> cases l.mapM f <;> rfl

namespace Json

theorem mapM_toText?_eq_some_iff {items : List Json} {ts : List Text} :
    items.mapM toText? = some ts ↔ items = ts.map .string := by
  induction items generalizing ts with
  | nil => cases ts <;> simp
  | cons v rest ih =>
    cases ts <;> simp [Option.bind_eq_some_iff, toText?_eq_some_iff, ih]

theorem toTexts?_eq_some_iff {v : Json} {ts : List Text} :
    v.toTexts? = some ts ↔ v = .array (ts.map .string) := by
  cases v with
  | array items => simp [toTexts?, mapM_toText?_eq_some_iff]
  | _ => simp [toTexts?]

theorem isSome_toTexts? (v : Json) : v.toTexts?.isSome = v.isTexts := by
  cases v with
  | array items => simp only [toTexts?, isTexts, isSome_mapM, isSome_toText?]
  | _ => rfl

end Json

/-! ### Tables of offsets -/

namespace OffsetTable

theorem lookup_put (form : Text) (offset : Int) (entries : List (Text × Int)) (other : Text) :
    (put form offset entries).lookup other =
      if other = form then some offset else entries.lookup other := by
  induction entries with
  | nil => exact Json.lookup_cons other form offset []
  | cons entry rest ih =>
    obtain ⟨f, n⟩ := entry
    rw [put]
    split
    · next hf =>
      subst hf
      simp only [Json.lookup_cons]
      split <;> rfl
    · next hf =>
      split
      · exact Json.lookup_cons other form offset _
      · rw [Json.lookup_cons, Json.lookup_cons, ih]
        by_cases h : other = form
        · simp [h, Ne.symm hf]
        · simp [h]

theorem find?_insert (form : Text) (offset : Int) (table : OffsetTable) (other : Text) :
    (insert form offset table).find? other =
      if other = form then some offset else table.find? other :=
  lookup_put form offset table.entries other

/-- A table that is made of entries for different forms holds these entries. -/
theorem find?_ofList {entries : List (Text × Int)} (hkeys : (entries.map Prod.fst).Nodup)
    (form : Text) : (ofList entries).find? form = entries.lookup form := by
  suffices h : ∀ table : OffsetTable,
      (entries.foldl (fun table e => insert e.1 e.2 table) table).find? form =
        (entries.lookup form).or (table.find? form) from
    (h empty).trans Option.or_none
  -- the table grows with each entry, so the induction is for any table that is there already
  induction entries with
  | nil => intro table; rfl
  | cons entry rest ih =>
    obtain ⟨f, n⟩ := entry
    obtain ⟨hnew, hrest⟩ := List.nodup_cons.mp hkeys
    intro table
    rw [List.foldl_cons, ih hrest, find?_insert, Json.lookup_cons]
    by_cases h : form = f
    · subst h
      simp [Json.lookup_eq_none hnew]
    · simp [h]

theorem mem_entries_iff (table : OffsetTable) (form : Text) (n : Int) :
    (form, n) ∈ table.entries ↔ table.find? form = some n := by
  refine ⟨fun hmem => ?_, Json.mem_of_lookup⟩
  obtain ⟨entries, hincreasing⟩ := table
  show entries.lookup form = some n
  induction entries with
  | nil => cases hmem
  | cons entry rest ih =>
    obtain ⟨f, k⟩ := entry
    obtain ⟨hfirst, hrest⟩ := List.pairwise_cons.mp hincreasing
    rw [Json.lookup_cons]
    rcases List.mem_cons.mp hmem with heq | hlater
    · cases heq
      exact if_pos rfl
    · have hne : form ≠ f := by
        rintro rfl
        have hself : form.precedes form = true := hfirst (form, n) hlater
        rw [Text.precedes_irrefl] at hself
        cases hself
      rw [if_neg hne]
      exact ih hrest hlater

/-- **A table is what it says of each form**: the order in which the forms were given is lost. -/
theorem eq_of_find?_eq {table table' : OffsetTable}
    (h : ∀ form, table.find? form = table'.find? form) : table = table' := by
  have hasymm (a b : Text × Int) (hab : a.1.precedes b.1 = true) (hba : b.1.precedes a.1 = true) :
      a = b :=
    absurd (Text.precedes_trans hab hba) (by rw [Text.precedes_irrefl]; exact Bool.false_ne_true)
  have hnodup (t : OffsetTable) : t.entries.Nodup :=
    t.increasing.imp fun {a b} hab heq => by
      rw [heq, Text.precedes_irrefl] at hab
      exact Bool.false_ne_true hab
  have hperm : table.entries.Perm table'.entries := by
    rw [List.perm_ext_iff_of_nodup (hnodup table) (hnodup table')]
    intro ⟨form, n⟩
    rw [mem_entries_iff, mem_entries_iff, h]
  have hentries := hperm.eq_of_pairwise (fun a b _ _ => hasymm a b) table.increasing
    table'.increasing
  cases table
  cases table'
  cases hentries
  rfl

end OffsetTable

namespace Json

def isOffsets : Json → Bool
  | .object members .. => members.all fun m => m.2.isCount
  | _ => false

/-- A natural number, as an offset. -/
def toOffset? (v : Json) : Option Int := v.toCount?.map Int.ofNat

theorem isSome_toOffset? (v : Json) : v.toOffset?.isSome = v.isCount := by
  rw [toOffset?, Option.isSome_map, isSome_toCount?]

theorem isNumber_of_toOffset? {v : Json} {k : Int} (h : v.toOffset? = some k) : v.IsNumber k := by
  obtain ⟨n, hn, rfl⟩ := Option.map_eq_some_iff.mp h
  exact isNumber_of_toCount? hn

theorem toOffsets?_object (members inherited : List (Text × Json)) (root : ObjectRoot) :
    toOffsets? (.object members inherited root) =
      (members.mapM fun (m : Text × Json) => m.2.toOffset?.map fun n => (m.1, n)).map
        OffsetTable.ofList := by
  simp only [toOffsets?, toOffset?]
  congr 2
  funext m
  cases m.2.toCount? <;> rfl

theorem isSome_toOffsets? (v : Json) : v.toOffsets?.isSome = v.isOffsets := by
  cases v with
  | object members inherited root =>
    simp only [toOffsets?_object, isOffsets, Option.isSome_map, isSome_mapM, isSome_toOffset?]
  | _ => rfl

/-- What is read of members that are natural numbers is found under the same keys. -/
theorem lookup_of_mapM_toOffset? {members : List (Text × Json)} {entries : List (Text × Int)}
    (h : (members.mapM fun (m : Text × Json) => m.2.toOffset?.map fun n => (m.1, n)) =
      some entries) :
    entries.map Prod.fst = members.map Prod.fst ∧
      ∀ form, entries.lookup form = (members.lookup form).bind toOffset? := by
  induction members generalizing entries with
  | nil => simp_all
  | cons m rest ih =>
    obtain ⟨key, v⟩ := m
    simp only [List.mapM_cons, Option.bind_eq_bind, Option.bind_eq_some_iff,
      Option.map_eq_some_iff] at h
    obtain ⟨_, ⟨n, hn, rfl⟩, more, hrest, heq⟩ := h
    obtain rfl := Option.some.inj heq
    obtain ⟨hkeys, hlookup⟩ := ih hrest
    refine ⟨by simp [hkeys], fun form => ?_⟩
    rw [lookup_cons, lookup_cons, hlookup]
    by_cases h : form = key <;> simp [h, hn]

/-- An offset table holds the numbers of the object that it is read from. -/
theorem find?_of_toOffsets? {v : Json} (hv : v.Plain) {table : OffsetTable}
    (h : v.toOffsets? = some table) (form : Text) (n : Int) :
    table.find? form = some n ↔ ∃ w, v.get? form = some w ∧ w.IsNumber n := by
  have hall : v.isOffsets = true := by rw [← isSome_toOffsets?, h, Option.isSome_some]
  cases hv with
  | object hkeys _ =>
    rw [toOffsets?_object] at h
    obtain ⟨entries, hentries, rfl⟩ := Option.map_eq_some_iff.mp h
    obtain ⟨hsame, hlookup⟩ := lookup_of_mapM_toOffset? hentries
    rw [OffsetTable.find?_ofList (hsame ▸ hkeys), hlookup, Option.bind_eq_some_iff]
    simp only [get?_object_nil]
    constructor
    · rintro ⟨w, hw, hn⟩
      exact ⟨w, hw, isNumber_of_toOffset? hn⟩
    · rintro ⟨w, hw, hn⟩
      -- all members are natural numbers, and a value is read as one number only
      have hcount : w.isCount = true := List.all_eq_true.mp hall _ (mem_of_lookup hw)
      rw [← isSome_toOffset?, Option.isSome_iff_exists] at hcount
      obtain ⟨k, hk⟩ := hcount
      rw [hn.unique (isNumber_of_toOffset? hk)]
      exact ⟨w, hw, hk⟩
  | _ => cases h

/-- Two objects that hold the same under every key give the same table, in whatever order they hold
it. -/
theorem toOffsets?_congr {v w : Json} (hv : v.Plain) (hw : w.Plain)
    (hsame : ∀ key, v.get? key = w.get? key) {table table' : OffsetTable}
    (h : v.toOffsets? = some table) (h' : w.toOffsets? = some table') : table = table' := by
  refine OffsetTable.eq_of_find?_eq fun form => Option.ext fun n => ?_
  rw [find?_of_toOffsets? hv h, find?_of_toOffsets? hw h', hsame]

end Json

/-! ### Prefixes of the categories -/

namespace SymbolCategory

theorem ofKey?_eq_some_iff {key : Text} {c : SymbolCategory} :
    ofKey? key = some c ↔ key = Text.ofString c.key := by
  constructor
  · intro h
    rw [ofKey?] at h
    have hkey := List.find?_some h
    exact (eq_of_beq hkey).symm
  · rintro rfl
    exact ofKey?_key c

theorem key_injective {c d : SymbolCategory} (h : Text.ofString c.key = Text.ofString d.key) :
    c = d :=
  Option.some.inj ((ofKey?_key c).symm.trans (ofKey?_eq_some_iff.mpr h))

end SymbolCategory

namespace Json

/-- Whether a value is an object whose keys name categories and whose members are lists of
strings. -/
def isCategoryPrefixes : Json → Bool
  | .object members .. => members.all fun m => (SymbolCategory.ofKey? m.1).isSome && m.2.isTexts
  | _ => false

/-- The prefixes in which one more member has its say. -/
def setPrefixes (p : CategoryPrefixes) (m : Text × Json) : Option CategoryPrefixes := do
  return p.set (← SymbolCategory.ofKey? m.1) (← m.2.toTexts?)

theorem toCategoryPrefixes?_object (members inherited : List (Text × Json)) (root : ObjectRoot) :
    toCategoryPrefixes? (.object members inherited root) =
      members.foldlM setPrefixes CategoryPrefixes.empty := rfl

theorem isSome_setPrefixes (p : CategoryPrefixes) (m : Text × Json) :
    (setPrefixes p m).isSome = ((SymbolCategory.ofKey? m.1).isSome && m.2.isTexts) := by
  rw [← isSome_toTexts?, setPrefixes]
  cases SymbolCategory.ofKey? m.1 <;> cases m.2.toTexts? <;> rfl

theorem isSome_toCategoryPrefixes? (v : Json) :
    v.toCategoryPrefixes?.isSome = v.isCategoryPrefixes := by
  cases v with
  | object members inherited root =>
    rw [toCategoryPrefixes?_object, isCategoryPrefixes]
    -- whether a member is accepted does not depend on those before it
    generalize CategoryPrefixes.empty = p
    induction members generalizing p with
    | nil => rfl
    | cons m rest ih =>
      rw [List.foldlM_cons, List.all_cons, ← isSome_setPrefixes p m]
      cases setPrefixes p m with
      | none => rfl
      | some q => exact ih q
  | _ => rfl

/-- The prefixes of a category are those of the member under its key, if there is one. -/
theorem get?_of_foldlM_setPrefixes {members : List (Text × Json)} {p q : CategoryPrefixes}
    (hkeys : (members.map Prod.fst).Nodup) (h : members.foldlM setPrefixes p = some q)
    (c : SymbolCategory) :
    q.get? c = ((members.lookup (.ofString c.key)).bind toTexts?).or (p.get? c) := by
  induction members generalizing p with
  | nil =>
    obtain rfl := Option.some.inj h
    rfl
  | cons m rest ih =>
    obtain ⟨key, v⟩ := m
    obtain ⟨hnew, hrest⟩ := List.nodup_cons.mp hkeys
    rw [List.foldlM_cons, Option.bind_eq_bind, Option.bind_eq_some_iff] at h
    obtain ⟨p', hset, h⟩ := h
    simp only [setPrefixes, Option.bind_eq_bind, Option.bind_eq_some_iff] at hset
    obtain ⟨d, hd, ts, hts, heq⟩ := hset
    obtain rfl := Option.some.inj heq
    obtain rfl := SymbolCategory.ofKey?_eq_some_iff.mp hd
    rw [ih hrest h, lookup_cons]
    by_cases hcd : c = d
    · subst hcd
      simp [lookup_eq_none hnew, hts]
    · have hkey : Text.ofString c.key ≠ Text.ofString d.key :=
        fun heq => hcd (SymbolCategory.key_injective heq)
      rw [if_neg hkey, CategoryPrefixes.get?_set_of_ne p hcd]

theorem get?_of_toCategoryPrefixes? {v : Json} (hv : v.Plain) {p : CategoryPrefixes}
    (h : v.toCategoryPrefixes? = some p) (c : SymbolCategory) :
    p.get? c = (v.get? (.ofString c.key)).bind toTexts? := by
  cases hv with
  | object hkeys _ =>
    rw [get?_object_nil, get?_of_foldlM_setPrefixes hkeys h c]
    cases c <;> simp [CategoryPrefixes.empty, CategoryPrefixes.get?]
  | _ => cases h

end Json

/-! ### Names of levels -/

namespace Json

def isLevelName : Json → Bool
  | .string name => LogLevel.all.any fun level => Text.ofString level.name == name.lowercase
  | _ => false

theorem isSome_toLogLevel? (v : Json) : v.toLogLevel?.isSome = v.isLevelName := by
  cases v with
  | string name => exact List.isSome_find?
  | _ => rfl

theorem name_of_toLogLevel? {v : Json} {level : LogLevel} (h : v.toLogLevel? = some level) :
    ∃ name, v = .string name ∧ name.lowercase = Text.ofString level.name := by
  cases v with
  | string name =>
    rw [toLogLevel?, LogLevel.ofName?] at h
    have hname := List.find?_some h
    exact ⟨name, rfl, (eq_of_beq hname).symm⟩
  | _ => cases h

/-! ### Other strings -/

def isNonEmptyText : Json → Bool
  | .string t => !t.isEmpty
  | _ => false

theorem isSome_toNonEmptyText? (v : Json) : v.toNonEmptyText?.isSome = v.isNonEmptyText := by
  cases v with
  | string t => cases t <;> rfl
  | _ => rfl

theorem eq_of_toNonEmptyText? {v : Json} {t : Text} (h : v.toNonEmptyText? = some t) :
    v = .string t := by
  cases v with
  | string s =>
    cases s with
    | nil => cases h
    | cons c s => exact congrArg Json.string (Option.some.inj h)
  | _ => cases h

def isBool : Json → Bool
  | .bool _ => true
  | _ => false

end Json

/-! ### All guards -/

/-- What a field of settings asks of its value. -/
inductive SettingsGuard
  | truth
  | count
  | nonEmptyText
  | texts
  | offsets
  | categoryPrefixes
  | levelName

namespace SettingsGuard

/-- What the values mean that pass a guard. -/
def Meaning : SettingsGuard → Type
  | .truth => Bool
  | .count => Int
  | .nonEmptyText => Text
  | .texts => List Text
  | .offsets => OffsetTable
  | .categoryPrefixes => CategoryPrefixes
  | .levelName => LogLevel

/-- Whether a value passes a guard. -/
def passes : SettingsGuard → Json → Bool
  | .truth => Json.isBool
  | .count => Json.isCount
  | .nonEmptyText => Json.isNonEmptyText
  | .texts => Json.isTexts
  | .offsets => Json.isOffsets
  | .categoryPrefixes => Json.isCategoryPrefixes
  | .levelName => Json.isLevelName

/-- What a value means that passes a guard. A name of a level means the level of that name, in upper
or lower case. -/
def Means : (g : SettingsGuard) → Json → g.Meaning → Prop
  | .truth, v, b => v = .bool b
  | .count, v, n => v.IsNumber n
  | .nonEmptyText, v, t => v = .string t
  | .texts, v, ts => v = .array (ts.map .string)
  | .offsets, v, table =>
    ∀ form n, OffsetTable.find? table form = some n ↔ ∃ w, v.get? form = some w ∧ w.IsNumber n
  | .categoryPrefixes, v, p =>
    ∀ c ts, CategoryPrefixes.get? p c = some ts ↔
      v.get? (.ofString c.key) = some (.array (ts.map .string))
  | .levelName, v, level =>
    ∃ name, v = .string name ∧ name.lowercase = Text.ofString (LogLevel.name level)

/-- How the values are described that pass a guard. -/
def description : SettingsGuard → String
  | .truth => "true or false"
  | .count => "a non-negative integer"
  | .nonEmptyText => "a non-empty string"
  | .texts => "a list of strings"
  | .offsets => "an object mapping form names to non-negative integers"
  | .categoryPrefixes => "an object mapping function/form/class/method to lists of strings"
  | .levelName => "one of verbose, log, warn, error, stop"

/-- The reader of the values that pass a guard. -/
def accepts : (g : SettingsGuard) → Json → Option g.Meaning
  | .truth => Json.toBool?
  | .count => Json.toOffset?
  | .nonEmptyText => Json.toNonEmptyText?
  | .texts => Json.toTexts?
  | .offsets => Json.toOffsets?
  | .categoryPrefixes => Json.toCategoryPrefixes?
  | .levelName => Json.toLogLevel?

/-- The values that are accepted are those that pass. -/
theorem isSome_accepts (g : SettingsGuard) (v : Json) : (g.accepts v).isSome = g.passes v := by
  cases g with
  | truth => cases v <;> rfl
  | count => exact v.isSome_toOffset?
  | nonEmptyText => exact v.isSome_toNonEmptyText?
  | texts => exact v.isSome_toTexts?
  | offsets => exact v.isSome_toOffsets?
  | categoryPrefixes => exact v.isSome_toCategoryPrefixes?
  | levelName => exact v.isSome_toLogLevel?

/-- A value that is accepted is taken as what it means. -/
theorem means_of_accepts {g : SettingsGuard} {v : Json} (hv : v.Plain) {x : g.Meaning}
    (h : g.accepts v = some x) : g.Means v x := by
  cases g with
  | truth =>
    cases v with
    | bool b => exact congrArg Json.bool (Option.some.inj h)
    | _ => cases h
  | count => exact Json.isNumber_of_toOffset? h
  | nonEmptyText => exact Json.eq_of_toNonEmptyText? h
  | texts => exact Json.toTexts?_eq_some_iff.mp h
  | offsets => exact Json.find?_of_toOffsets? hv h
  | categoryPrefixes =>
    intro c ts
    rw [Json.get?_of_toCategoryPrefixes? hv h, Option.bind_eq_some_iff]
    simp [Json.toTexts?_eq_some_iff]
  | levelName => exact Json.name_of_toLogLevel? h

end SettingsGuard

end SexpEditing
