import SexpEditing.Catalog.Settings
import SexpEditing.Indent.Settings
import SexpEditing.Json.Kind
import SexpEditing.Json.Report
import SexpEditing.Log.Basic
import SexpEditing.Symbol.Ranking

/-!
# Settings

Settings are compared as a whole and section by section. Two fields hold objects, and these may
differ although they have the same members; what is relied on is that sections which compare equal
hold the same, and that no more than this counts for objects that rest on no others.

## Main definitions

* `Settings`, `Settings.standard`: all settings, and those that hold where nothing is set
* `SettingsComparison`, `SettingsComparison.IsStructural`: how settings are compared, and what is
  relied on
* `SettingsComparison.byMembers`: a comparison in which objects of different kinds differ
* `SettingsError`: why a settings file is refused
-/

namespace SexpEditing

/-- What the objects in settings have besides their own members. -/
structure SettingsBackground where
  /-- The inherited prefixes of the categories, in the order of the categories. They count for the
  categories for which the settings themselves have none. -/
  prefixes : List (SymbolCategory × RankedPrefix)
  /-- The kind of the object that holds the prefixes of the categories. -/
  categoryPrefixesKind : Option ObjectKind
  /-- The kind of the object that holds the offsets of forms. -/
  alignFormsKind : Option ObjectKind
deriving DecidableEq, Repr

/-- The background of objects that rest on no others. -/
def SettingsBackground.plain : SettingsBackground := ⟨[], some .objects, some .objects⟩

/-- All settings. -/
structure Settings where
  catalog : CatalogSettings
  indent : IndentSettings
  /-- The least severity that the log keeps. -/
  logLevel : LogLevel
  background : SettingsBackground
deriving DecidableEq, Repr

namespace Settings

/-- The settings that hold where nothing is set. -/
def standard : Settings := ⟨.standard, .standard, .log, .plain⟩

end Settings

/-! ### Comparing settings -/

/-- How settings are compared: as a whole, and section by section. -/
structure SettingsComparison where
  whole : Settings → Settings → Bool
  catalog : Settings → Settings → Bool
  indent : Settings → Settings → Bool
  log : Settings → Settings → Bool

namespace SettingsComparison

/-- **What is relied on of a comparison.** Settings are equal if all their sections are. Sections
that are equal hold the same; if they hold the same and rest on nothing else, they are equal. -/
structure IsStructural (cmp : SettingsComparison) : Prop where
  whole_iff (s t : Settings) : cmp.whole s t = true ↔
    cmp.catalog s t = true ∧ cmp.indent s t = true ∧ cmp.log s t = true
  catalog_eq {s t : Settings} (h : cmp.catalog s t = true) : s.catalog = t.catalog
  indent_eq {s t : Settings} (h : cmp.indent s t = true) : s.indent = t.indent
  log_iff (s t : Settings) : cmp.log s t = true ↔ s.logLevel = t.logLevel
  catalog_of_eq {s t : Settings} (hs : s.background = .plain) (ht : t.background = .plain)
    (h : s.catalog = t.catalog) : cmp.catalog s t = true
  indent_of_eq {s t : Settings} (hs : s.background = .plain) (ht : t.background = .plain)
    (h : s.indent = t.indent) : cmp.indent s t = true

namespace IsStructural

variable {cmp : SettingsComparison} (hcmp : cmp.IsStructural) {s t : Settings}
  (hs : s.background = .plain) (ht : t.background = .plain)

include hcmp hs ht

theorem catalog_iff_eq : cmp.catalog s t = true ↔ s.catalog = t.catalog :=
  ⟨hcmp.catalog_eq, hcmp.catalog_of_eq hs ht⟩

theorem indent_iff_eq : cmp.indent s t = true ↔ s.indent = t.indent :=
  ⟨hcmp.indent_eq, hcmp.indent_of_eq hs ht⟩

/-- Settings whose objects rest on no others are equal if all their parts are. -/
theorem whole_iff_eq : cmp.whole s t = true ↔ s = t := by
  rw [hcmp.whole_iff, hcmp.catalog_iff_eq hs ht, hcmp.indent_iff_eq hs ht, hcmp.log_iff]
  obtain ⟨catalog, indent, level, _⟩ := s
  obtain ⟨catalog', indent', level', _⟩ := t
  subst hs ht
  simp only [Settings.mk.injEq, and_true]

end IsStructural

/-- The comparison member by member, in which objects of different kinds differ as well. -/
def byMembers : SettingsComparison :=
  let catalog (s t : Settings) := decide (s.catalog = t.catalog) &&
    ObjectKind.agree s.background.categoryPrefixesKind t.background.categoryPrefixesKind
  let indent (s t : Settings) := decide (s.indent = t.indent) &&
    ObjectKind.agree s.background.alignFormsKind t.background.alignFormsKind
  let log (s t : Settings) := decide (s.logLevel = t.logLevel)
  ⟨fun s t => catalog s t && indent s t && log s t, catalog, indent, log⟩

theorem isStructural_byMembers : byMembers.IsStructural where
  whole_iff s t := by simp only [byMembers, Bool.and_eq_true, and_assoc]
  catalog_eq h := of_decide_eq_true (Bool.and_eq_true_iff.mp h).1
  indent_eq h := of_decide_eq_true (Bool.and_eq_true_iff.mp h).1
  log_iff s t := decide_eq_true_iff
  catalog_of_eq hs ht h := by
    simp [byMembers, h, hs, ht, SettingsBackground.plain, ObjectKind.agree, ObjectKind.isLike]
  indent_of_eq hs ht h := by
    simp [byMembers, h, hs, ht, SettingsBackground.plain, ObjectKind.agree, ObjectKind.isLike]

end SettingsComparison

/-- What is wrong with a settings file. -/
inductive SettingsFault
  /-- The file cannot be read. -/
  | unreadable (cause : Text)
  /-- The text is no JSON. -/
  | malformed (reports : List JsonReport)
  /-- The text is JSON, but no object. -/
  | notAnObject
deriving DecidableEq, Repr

/-- Why settings are refused, and the file that holds them, if they come from a file. -/
structure SettingsError where
  fault : SettingsFault
  file : Option Text
deriving DecidableEq, Repr

namespace SettingsFault

/-- The wording of one report. -/
def reportText (r : JsonReport) : String := r.fault.name ++ " at offset " ++ toString r.offset

/-- The wording of a fault. -/
def message : SettingsFault → Text
  | .unreadable cause => Text.ofString "unable to read settings: " ++ cause
  | .malformed reports =>
    Text.ofString ("invalid settings: " ++ ", ".intercalate (reports.map reportText))
  | .notAnObject => Text.ofString "settings must be an object"

end SettingsFault

/-- The wording of an error. A file without a name is not mentioned. -/
def SettingsError.message (e : SettingsError) : Text :=
  match e.file with
  | none | some [] => e.fault.message
  | some file => file ++ Text.ofString ": " ++ e.fault.message

end SexpEditing
