import Mathlib.Data.List.Nodup
import SexpEditing.Proofs.Settings.Guards

/-!
# Keys of settings

Each field of settings has a key: its place in a settings file and in the settings, and the guard of
its value. What is read of a file, what is reported of it, and what a change to it does, is told key
by key.

## Main definitions

* `SettingsKey`: the keys, with their places and guards
* `SettingsKey.find?`, `SettingsKey.assign`: what an object holds under a key, and the object that
  holds something else there
* `SettingsKey.get`: what settings hold under a key

## Main statements

* `SettingsKey.get_ofJson`: what is read under a key
* `Settings.warningsOf_eq`: what is reported
* `SettingsKey.find?_assign_of_ne`: a change under one key leaves the others
* `SettingsKey.isValid_standard`: what holds where nothing is set passes its guards
-/

namespace SexpEditing

/-- The keys of the fields of settings, in the order in which the fields are read. -/
inductive SettingsKey
  | logLevel
  | categoryPrefixes
  | docExtensions
  | docPrefixes
  | docRoots
  | maxDepth
  | recursive
  | sourceExtensions
  | sourceRoots
  | alignForms
  | bindingForms
  | blockForms
  | classForms
  | definitionForms
  | keywordParamOffset
  | keywordParamPrefix
  | maxDedentSteps
  | maxSteps
  | wrappingForms
deriving DecidableEq

namespace SettingsKey

/-- Every key, in that order. -/
def all : List SettingsKey :=
  [.logLevel, .categoryPrefixes, .docExtensions, .docPrefixes, .docRoots, .maxDepth, .recursive,
    .sourceExtensions, .sourceRoots, .alignForms, .bindingForms, .blockForms, .classForms,
    .definitionForms, .keywordParamOffset, .keywordParamPrefix, .maxDedentSteps, .maxSteps,
    .wrappingForms]

theorem mem_all (k : SettingsKey) : k ∈ all := by cases k <;> decide

/-- The section that holds a key. -/
def group : SettingsKey → String
  | .logLevel => "log"
  | .categoryPrefixes | .docExtensions | .docPrefixes | .docRoots | .maxDepth | .recursive
  | .sourceExtensions | .sourceRoots => "catalog"
  | _ => "indent"

/-- The name of a key in its section. -/
def name : SettingsKey → String
  | .logLevel => "level"
  | .categoryPrefixes => "categoryPrefixes"
  | .docExtensions => "docExtensions"
  | .docPrefixes => "docPrefixes"
  | .docRoots => "docRoots"
  | .maxDepth => "maxDepth"
  | .recursive => "recursive"
  | .sourceExtensions => "sourceExtensions"
  | .sourceRoots => "sourceRoots"
  | .alignForms => "alignForms"
  | .bindingForms => "bindingForms"
  | .blockForms => "blockForms"
  | .classForms => "classForms"
  | .definitionForms => "definitionForms"
  | .keywordParamOffset => "keywordParamOffset"
  | .keywordParamPrefix => "keywordParamPrefix"
  | .maxDedentSteps => "maxDedentSteps"
  | .maxSteps => "maxSteps"
  | .wrappingForms => "wrappingForms"

/-- What a key asks of its value. -/
def guard : SettingsKey → SettingsGuard
  | .logLevel => .levelName
  | .categoryPrefixes => .categoryPrefixes
  | .recursive => .truth
  | .maxDepth | .keywordParamOffset | .maxDedentSteps | .maxSteps => .count
  | .keywordParamPrefix => .nonEmptyText
  | .alignForms => .offsets
  | _ => .texts

/-- What settings hold under a key. -/
def get : (k : SettingsKey) → Settings → k.guard.Meaning
  | .logLevel, s => s.logLevel
  | .categoryPrefixes, s => s.catalog.categoryPrefixes
  | .docExtensions, s => s.catalog.docExtensions
  | .docPrefixes, s => s.catalog.docPrefixes
  | .docRoots, s => s.catalog.docRoots
  | .maxDepth, s => (s.catalog.maxDepth : Int)
  | .recursive, s => s.catalog.recursive
  | .sourceExtensions, s => s.catalog.sourceExtensions
  | .sourceRoots, s => s.catalog.sourceRoots
  | .alignForms, s => s.indent.alignForms
  | .bindingForms, s => s.indent.bindingForms
  | .blockForms, s => s.indent.blockForms
  | .classForms, s => s.indent.classForms
  | .definitionForms, s => s.indent.definitionForms
  | .keywordParamOffset, s => s.indent.keywordParamOffset
  | .keywordParamPrefix, s => s.indent.keywordParamPrefix
  | .maxDedentSteps, s => (s.indent.maxDedentSteps : Int)
  | .maxSteps, s => (s.indent.maxSteps : Int)
  | .wrappingForms, s => s.indent.wrappingForms

/-! ### Reading -/

/-- The section of a key, if the object holds one under its name. -/
def section? (k : SettingsKey) (v : Json) : Option Json :=
  (v.get? (.ofString k.group)).filter Json.isObject

/-- What an object holds under a key, if the section of the key is an object and holds it. -/
def find? (k : SettingsKey) (v : Json) : Option Json :=
  (k.section? v).bind (Json.get? (.ofString k.name))

/-- The field of a key. -/
def field (k : SettingsKey) : SettingsField k.guard.Meaning :=
  ⟨k.group, k.name, k.guard.description, k.guard.accepts, k.get .standard⟩

theorem find?_field (k : SettingsKey) (v : Json) : k.field.find? v = k.find? v := by
  simp only [SettingsField.find?, find?, section?, field]
  cases v.get? (.ofString k.group) with
  | none => rfl
  | some o => cases o <;> rfl

/-- A field whose value is a natural number holds it as an integer under its key. -/
theorem natCast_value (f : SettingsField Nat) (v : Json) (h : f.accepts = Json.toCount?) :
    (f.value v : Int) = ((f.find? v).bind Json.toOffset?).getD f.fallback := by
  rw [SettingsField.value, h]
  cases f.find? v with
  | none => rfl
  | some w => cases hw : w.toCount? <;> simp [Json.toOffset?, hw]

theorem accepts_keywordParamOffsetField :
    Settings.keywordParamOffsetField.accepts = Json.toOffset? := by
  funext v
  simp only [Settings.keywordParamOffsetField, Json.toOffset?]
  cases v.toCount? <;> rfl

/-- What is read under a key is what its field holds. -/
theorem get_ofJson (k : SettingsKey) (v : Json) : k.get (Settings.ofJson v) = k.field.value v := by
  -- four fields read their values in a way of their own, the others are those of the table
  cases k with
  | maxDepth => exact natCast_value Settings.maxDepthField v rfl
  | maxDedentSteps => exact natCast_value Settings.maxDedentStepsField v rfl
  | maxSteps => exact natCast_value Settings.maxStepsField v rfl
  | keywordParamOffset =>
    exact congrArg (fun a => ((Settings.keywordParamOffsetField.find? v).bind a).getD
      Settings.standard.indent.keywordParamOffset) accepts_keywordParamOffsetField
  | _ => rfl

variable {k : SettingsKey} {v w : Json}

theorem plain_of_find? (hv : v.Plain) (h : k.find? v = some w) : w.Plain := by
  obtain ⟨o, ho, hw⟩ := Option.bind_eq_some_iff.mp h
  exact (hv.get? (Option.filter_eq_some_iff.mp ho).1).get? hw

/-- A value that passes is taken. -/
theorem get_ofJson_of_passes (hv : v.Plain) (h : k.find? v = some w)
    (hw : k.guard.passes w = true) : k.guard.Means w (k.get (Settings.ofJson v)) := by
  rw [← SettingsGuard.isSome_accepts, Option.isSome_iff_exists] at hw
  obtain ⟨x, hx⟩ := hw
  have hvalue : k.field.value v = x := by
    rw [SettingsField.value, find?_field, h, Option.bind_some]
    exact congrArg (Option.getD · _) hx
  rw [get_ofJson, hvalue]
  exact SettingsGuard.means_of_accepts (plain_of_find? hv h) hx

/-- Where no value passes, the one stands that holds where nothing is set. -/
theorem get_ofJson_of_not_passes (h : ∀ w, k.find? v = some w → k.guard.passes w = false) :
    k.get (Settings.ofJson v) = k.get .standard := by
  rw [get_ofJson, SettingsField.value, find?_field]
  cases hw : k.find? v with
  | none => rfl
  | some w =>
    have hnone : k.guard.accepts w = none := by
      rw [← Option.isNone_iff_eq_none, ← Option.not_isSome, SettingsGuard.isSome_accepts, h w hw,
        Bool.not_false]
    exact congrArg (Option.getD · _) hnone

/-! ### Reports -/

/-- The path by which a report names a key. -/
def path (k : SettingsKey) : String := k.group ++ "." ++ k.name

/-- Whether an object holds a value under a key that does not pass. -/
def isRejected (k : SettingsKey) (v : Json) : Bool := (k.find? v).any fun w => !k.guard.passes w

/-- A field with the place and the guard of a key reports the value under the key if it does not
pass. -/
theorem warnings_eq_ite {α : Type} (f : SettingsField α) (k : SettingsKey)
    (hgroup : f.group = k.group) (hname : f.name = k.name)
    (hexpected : f.expected = k.guard.description)
    (haccepts : ∀ w, (f.accepts w).isSome = k.guard.passes w) (v : Json) (file : Option Text) :
    f.warnings v file =
      if k.isRejected v then [ignoredSetting k.path file k.guard.description] else [] := by
  have hfind : f.find? v = k.find? v := by
    rw [← find?_field]
    simp only [SettingsField.find?, field, hgroup, hname]
  rw [SettingsField.warnings, hfind, isRejected, hgroup, hname, hexpected]
  cases k.find? v with
  | none => rfl
  | some w => cases h : k.guard.passes w <;> simp only [haccepts, h, Option.any_some] <;> rfl

/-- What is reported of the value under a key. -/
def warnings : SettingsKey → Json → Option Text → List LogEntry
  | .logLevel => Settings.logLevelField.warnings
  | .categoryPrefixes => Settings.categoryPrefixesField.warnings
  | .docExtensions => Settings.docExtensionsField.warnings
  | .docPrefixes => Settings.docPrefixesField.warnings
  | .docRoots => Settings.docRootsField.warnings
  | .maxDepth => Settings.maxDepthField.warnings
  | .recursive => Settings.recursiveField.warnings
  | .sourceExtensions => Settings.sourceExtensionsField.warnings
  | .sourceRoots => Settings.sourceRootsField.warnings
  | .alignForms => Settings.alignFormsField.warnings
  | .bindingForms => Settings.bindingFormsField.warnings
  | .blockForms => Settings.blockFormsField.warnings
  | .classForms => Settings.classFormsField.warnings
  | .definitionForms => Settings.definitionFormsField.warnings
  | .keywordParamOffset => Settings.keywordParamOffsetField.warnings
  | .keywordParamPrefix => Settings.keywordParamPrefixField.warnings
  | .maxDedentSteps => Settings.maxDedentStepsField.warnings
  | .maxSteps => Settings.maxStepsField.warnings
  | .wrappingForms => Settings.wrappingFormsField.warnings

theorem warnings_eq (k : SettingsKey) (v : Json) (file : Option Text) :
    k.warnings v file =
      if k.isRejected v then [ignoredSetting k.path file k.guard.description] else [] := by
  cases k with
  | logLevel => exact warnings_eq_ite _ _ rfl rfl rfl Json.isSome_toLogLevel? v file
  | categoryPrefixes => exact warnings_eq_ite _ _ rfl rfl rfl Json.isSome_toCategoryPrefixes? v file
  | recursive => exact warnings_eq_ite _ _ rfl rfl rfl (SettingsGuard.isSome_accepts .truth) v file
  | maxDepth | maxDedentSteps | maxSteps =>
    exact warnings_eq_ite _ _ rfl rfl rfl Json.isSome_toCount? v file
  | alignForms => exact warnings_eq_ite _ _ rfl rfl rfl Json.isSome_toOffsets? v file
  | keywordParamOffset =>
    refine warnings_eq_ite _ _ rfl rfl rfl (fun w => ?_) v file
    rw [accepts_keywordParamOffsetField]
    exact w.isSome_toOffset?
  | keywordParamPrefix => exact warnings_eq_ite _ _ rfl rfl rfl Json.isSome_toNonEmptyText? v file
  | _ => exact warnings_eq_ite _ _ rfl rfl rfl Json.isSome_toTexts? v file

end SettingsKey

/-- What is made of the members of a list that have a property. -/
theorem flatMap_ite_singleton {α β : Type} (p : α → Bool) (f : α → β) (l : List α) :
    (l.flatMap fun a => if p a then [f a] else []) = (l.filter p).map f := by
  induction l with
  | nil => rfl
  | cons a l ih =>
    rw [List.flatMap_cons, ih]
    cases h : p a <;> simp [h]

namespace Settings

/-- Whether an object holds something under the name of a section that is no object. -/
def isMisplaced (v : Json) (group : String) : Bool :=
  (v.get? (.ofString group)).any fun w => !w.isObject

theorem groupWarnings_eq (v : Json) (file : Option Text) (group : String) :
    groupWarnings v file group =
      if isMisplaced v group then [ignoredSetting group file "an object"] else [] := by
  rw [groupWarnings, isMisplaced]
  cases v.get? (.ofString group) with
  | none => rfl
  | some w => cases w <;> rfl

/-- The reports are those of the sections and those of all keys, in order. -/
theorem warningsOf_eq_flatMap (v : Json) (file : Option Text) :
    warningsOf v file =
      groups.flatMap (groupWarnings v file) ++ SettingsKey.all.flatMap (·.warnings v file) := by
  unfold warningsOf
  simp only [SettingsKey.all, List.flatMap_cons, List.flatMap_nil, List.append_nil,
    SettingsKey.warnings, List.append_assoc]

/-- The reports are one on each section that is no object, and one on each value that does not
pass. -/
theorem warningsOf_eq (v : Json) (file : Option Text) :
    warningsOf v file =
      (["catalog", "indent", "log"].filter (isMisplaced v)).map
          (fun group => ignoredSetting group file "an object") ++
        (SettingsKey.all.filter fun k => k.isRejected v).map
          fun k => ignoredSetting k.path file k.guard.description := by
  rw [warningsOf_eq_flatMap, ← flatMap_ite_singleton, ← flatMap_ite_singleton]
  simp only [groups, List.flatMap_cons, List.flatMap_nil, groupWarnings_eq,
    SettingsKey.warnings_eq]

end Settings

/-! ### Changing what a key holds -/

namespace SettingsKey

/-- The object that holds something else under a key, or nothing. The section of the key becomes an
object if it is none. -/
def assign (k : SettingsKey) (value : Option Json) (v : Json) : Json :=
  v.withMember (.ofString k.group)
    (some (((k.section? v).getD .emptyObject).withMember (.ofString k.name) value))

theorem name_injective {k l : SettingsKey}
    (h : Text.ofString k.name = Text.ofString l.name) : k = l := by
  have hnodup : (all.map fun k => Text.ofString k.name).Nodup := by decide +kernel
  exact List.inj_on_of_nodup_map hnodup (mem_all k) (mem_all l) h

theorem isObject_of_section? {k : SettingsKey} {v o : Json} (h : k.section? v = some o) :
    o.isObject = true :=
  (Option.filter_eq_some_iff.mp h).2

theorem section?_assign_of_eq {k l : SettingsKey} {v : Json} (hv : v.Plain)
    (hobject : v.isObject = true) (h : Text.ofString l.group = Text.ofString k.group)
    (value : Option Json) : l.section? (k.assign value v) =
      some (((k.section? v).getD .emptyObject).withMember (.ofString k.name) value) := by
  have hsection : ((k.section? v).getD .emptyObject).isObject = true := by
    cases ho : k.section? v with
    | none => rfl
    | some o => exact isObject_of_section? ho
  rw [section?, assign, h, Json.get?_withMember_self hv hobject]
  exact Option.filter_some_pos ((Json.isObject_withMember _ _ _).trans hsection)

/-- A change under a key is what is then held there. -/
theorem find?_assign_self {v : Json} (hv : v.Plain) (hobject : v.isObject = true)
    (k : SettingsKey) (value : Option Json) : k.find? (k.assign value v) = value := by
  rw [find?, section?_assign_of_eq hv hobject rfl, Option.bind_some]
  cases ho : k.section? v with
  | none => exact Json.get?_withMember_self .emptyObject rfl _ _
  | some o =>
    have hplain : o.Plain := hv.get? (Option.filter_eq_some_iff.mp ho).1
    exact Json.get?_withMember_self hplain (isObject_of_section? ho) _ _

/-- A change under a key leaves what is held under the others. -/
theorem find?_assign_of_ne {v : Json} (hv : v.Plain) (hobject : v.isObject = true)
    {k l : SettingsKey} (h : l ≠ k) (value : Option Json) :
    l.find? (k.assign value v) = l.find? v := by
  have hname : Text.ofString l.name ≠ Text.ofString k.name := fun heq => h (name_injective heq)
  -- in the same section another name is looked up, and another section is not touched at all
  by_cases hgroup : Text.ofString l.group = Text.ofString k.group
  · have hsame : l.section? v = k.section? v := by rw [section?, section?, hgroup]
    rw [find?, find?, section?_assign_of_eq hv hobject hgroup, Option.bind_some,
      Json.get?_withMember_of_ne hname, hsame]
    cases k.section? v <;> rfl
  · rw [find?, find?, section?, section?, assign, Json.get?_withMember_of_ne hgroup]

/-- Settings that differ in nothing but what they hold under a key. Where a key holds an object,
the kind of the object and what it inherits belong to it. -/
structure AgreeExcept (k : SettingsKey) (s t : Settings) : Prop where
  get : ∀ l, l ≠ k → l.get s = l.get t
  prefixes : k ≠ .categoryPrefixes → s.background.prefixes = t.background.prefixes
  categoryPrefixesKind : k ≠ .categoryPrefixes →
    s.background.categoryPrefixesKind = t.background.categoryPrefixesKind
  alignFormsKind : k ≠ .alignForms →
    s.background.alignFormsKind = t.background.alignFormsKind

theorem get_ofJson_congr {k : SettingsKey} {v w : Json} (h : k.find? v = k.find? w) :
    k.get (Settings.ofJson v) = k.get (Settings.ofJson w) := by
  rw [get_ofJson, get_ofJson, SettingsField.value, SettingsField.value, find?_field, find?_field, h]

theorem accepted?_field_congr {k : SettingsKey} {v w : Json} (h : k.find? v = k.find? w) :
    k.field.accepted? v = k.field.accepted? w := by
  rw [SettingsField.accepted?, SettingsField.accepted?, find?_field, find?_field, h]

/-- What is read under a key depends on nothing but what is held there. -/
theorem agreeExcept_ofJson {k : SettingsKey} {v w : Json}
    (h : ∀ l, l ≠ k → l.find? v = l.find? w) :
    AgreeExcept k (Settings.ofJson v) (Settings.ofJson w) where
  get l hl := get_ofJson_congr (h l hl)
  prefixes hk := congrArg (fun a => (a.map Json.inheritedPrefixes).getD [])
    (accepted?_field_congr (h .categoryPrefixes hk.symm))
  categoryPrefixesKind hk := congrArg (fun a => (a.getD Json.emptyObject).kind?)
    (accepted?_field_congr (h .categoryPrefixes hk.symm))
  alignFormsKind hk := congrArg (fun a => (a.getD Json.emptyObject).kind?)
    (accepted?_field_congr (h .alignForms hk.symm))

/-! ### Settings that pass their guards -/

/-- Whether what settings hold under a key is what some value means that passes the guard of the
key. -/
def IsValid (k : SettingsKey) (s : Settings) : Prop :=
  ∃ w : Json, w.Plain ∧ k.guard.passes w = true ∧ k.guard.Means w (k.get s)

theorem isValid_of_accepts {k : SettingsKey} {s : Settings} {w : Json} (hw : w.Plain)
    (h : k.guard.accepts w = some (k.get s)) : k.IsValid s := by
  refine ⟨w, hw, ?_, SettingsGuard.means_of_accepts hw h⟩
  rw [← SettingsGuard.isSome_accepts, h, Option.isSome_some]

/-- Any list of strings can be written. -/
theorem isValid_of_texts {k : SettingsKey} {s : Settings} (ts : List Text)
    (h : k.guard.accepts (.array (ts.map .string)) = some (k.get s)) : k.IsValid s := by
  refine isValid_of_accepts (.array fun v hv => ?_) h
  obtain ⟨t, -, rfl⟩ := List.mem_map.mp hv
  exact .string t

/-- The offsets that hold where nothing is set, as they are written. -/
def standardOffsets : Json :=
  .object (Settings.standard.indent.alignForms.entries.map fun (form, offset) =>
    (form, .number (.ofNat offset.toNat))) [] .objects

theorem plain_standardOffsets : standardOffsets.Plain := by
  refine .object (by decide +kernel) fun m hm => ?_
  obtain ⟨_, -, rfl⟩ := List.mem_map.mp hm
  exact .number _

theorem toOffsets?_standardOffsets :
    standardOffsets.toOffsets? = some Settings.standard.indent.alignForms := by decide +kernel

/-- What holds where nothing is set passes its guards. -/
theorem isValid_standard (k : SettingsKey) : k.IsValid .standard := by
  cases k with
  | logLevel =>
    have hlevel : Json.toLogLevel? (.string (.ofString "log")) = some .log := by decide +kernel
    exact isValid_of_accepts (.string _) hlevel
  | categoryPrefixes => exact isValid_of_accepts .emptyObject rfl
  | recursive => exact isValid_of_accepts (.bool true) rfl
  | maxDepth =>
    have hcount : Json.toOffset? (.number (.ofNat 8)) = some 8 := by decide +kernel
    exact isValid_of_accepts (.number _) hcount
  | keywordParamOffset =>
    have hcount : Json.toOffset? (.number (.ofNat 6)) = some 6 := by decide +kernel
    exact isValid_of_accepts (.number _) hcount
  | maxDedentSteps =>
    have hcount : Json.toOffset? (.number (.ofNat 200)) = some 200 := by decide +kernel
    exact isValid_of_accepts (.number _) hcount
  | maxSteps =>
    have hcount : Json.toOffset? (.number (.ofNat 10000)) = some 10000 := by decide +kernel
    exact isValid_of_accepts (.number _) hcount
  | keywordParamPrefix => exact isValid_of_accepts (.string (.ofString "@")) rfl
  | alignForms => exact isValid_of_accepts plain_standardOffsets toOffsets?_standardOffsets
  | _ => exact isValid_of_texts _ (Json.toTexts?_eq_some_iff.mpr rfl)

/-- What is read of an object passes its guards. -/
theorem isValid_ofJson {v : Json} (hv : v.Plain) (k : SettingsKey) :
    k.IsValid (Settings.ofJson v) := by
  -- what is read is either a value that passes, or what holds where nothing is set
  by_cases h : ∃ w, k.find? v = some w ∧ k.guard.passes w = true
  · obtain ⟨w, hfind, hw⟩ := h
    exact ⟨w, plain_of_find? hv hfind, hw, get_ofJson_of_passes hv hfind hw⟩
  · have hnone : ∀ w, k.find? v = some w → k.guard.passes w = false := fun w hw =>
      Bool.eq_false_iff.mpr fun hpass => h ⟨w, hw, hpass⟩
    obtain ⟨w, hplain, hpass, hmeans⟩ := k.isValid_standard
    exact ⟨w, hplain, hpass, get_ofJson_of_not_passes hnone ▸ hmeans⟩

end SettingsKey

end SexpEditing
