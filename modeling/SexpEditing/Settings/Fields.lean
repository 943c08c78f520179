import SexpEditing.Settings.Basic
import SexpEditing.Settings.Inherited

/-!
# Fields of settings

Settings are an object of sections, and each section an object of fields. A field that is missing,
or holds a value that it does not accept, takes its fallback; the second case is reported.

## Main definitions

* `SettingsField`: a field, the values that it accepts, and its fallback
* `SettingsField.value`, `SettingsField.warnings`: what a field holds, and what is reported of it
* `Settings.ofJson`, `Settings.warningsOf`: all fields of an object, and all reports
-/

namespace SexpEditing

/-- A field of settings. -/
structure SettingsField (α : Type) where
  /-- The section that holds the field. -/
  group : String
  name : String
  /-- How accepted values are described. -/
  expected : String
  /-- The meaning of a value, if the field accepts it. -/
  accepts : Json → Option α
  fallback : α

/-- The report on a piece of settings that is ignored. -/
def ignoredSetting (path : String) (file : Option Text) (expected : String) : LogEntry :=
  let place := match file with
    | none | some [] => []
    | some file => Text.ofString " in " ++ file
  .warn (Text.ofString ("[settings] ignoring " ++ path) ++ place ++
    Text.ofString (": expected " ++ expected))

namespace SettingsField

variable {α : Type}

/-- What an object holds under a field, if the section of the field is an object and holds it. -/
def find? (f : SettingsField α) (settings : Json) : Option Json :=
  match settings.get? (.ofString f.group) with
  | some (.object members inherited root) =>
    Json.get? (.ofString f.name) (.object members inherited root)
  | _ => none

/-- What a field holds. -/
def value (f : SettingsField α) (settings : Json) : α :=
  ((f.find? settings).bind f.accepts).getD f.fallback

/-- The value that a field accepts, as it is written. -/
def accepted? (f : SettingsField α) (settings : Json) : Option Json :=
  (f.find? settings).filter fun v => (f.accepts v).isSome

/-- The report on a field that holds a value that it does not accept. -/
def warnings (f : SettingsField α) (settings : Json) (file : Option Text) : List LogEntry :=
  match f.find? settings with
  | some v =>
    if (f.accepts v).isSome then []
    else [ignoredSetting (f.group ++ "." ++ f.name) file f.expected]
  | none => []

end SettingsField

namespace Json

/-- A truth value. -/
def toBool? : Json → Option Bool
  | .bool b => some b
  | _ => none

/-- A natural number. -/
def toCount? : Json → Option Nat
  | .number n => n.nearestNat?
  | _ => none

/-- A string. -/
def toText? : Json → Option Text
  | .string t => some t
  | _ => none

/-- A string that is not empty. -/
def toNonEmptyText? : Json → Option Text
  | .string (c :: t) => some (c :: t)
  | _ => none

/-- A list of strings. -/
def toTexts? : Json → Option (List Text)
  | .array items => items.mapM toText?
  | _ => none

/-- An object whose members are natural numbers. -/
def toOffsets? : Json → Option OffsetTable
  | .object members .. =>
    (members.mapM fun (m : Text × Json) => m.2.toCount?.map fun n => (m.1, (n : Int))).map
      OffsetTable.ofList
  | _ => none

/-- An object whose keys name categories and whose members are lists of strings. -/
def toCategoryPrefixes? : Json → Option CategoryPrefixes
  | .object members .. =>
    members.foldlM (fun prefixes (m : Text × Json) => do
      return prefixes.set (← SymbolCategory.ofKey? m.1) (← m.2.toTexts?)) CategoryPrefixes.empty
  | _ => none

/-- The name of a log level. -/
def toLogLevel? : Json → Option LogLevel
  | .string name => LogLevel.ofName? name
  | _ => none

end Json

namespace Settings

/-- The sections of settings, in the order in which they are looked at. -/
def groups : List String := ["catalog", "indent", "log"]

/-! ### The fields -/

/-- The least severity that the log keeps. -/
def logLevelField : SettingsField LogLevel :=
  ⟨"log", "level", "one of verbose, log, warn, error, stop", Json.toLogLevel?, standard.logLevel⟩

/-- How names that are not in the catalogue are classified. -/
def categoryPrefixesField : SettingsField CategoryPrefixes :=
  ⟨"catalog", "categoryPrefixes",
    "an object mapping function/form/class/method to lists of strings",
    Json.toCategoryPrefixes?, standard.catalog.categoryPrefixes⟩

/-- A field of the catalogue section that holds a list of strings. -/
def catalogTexts (name : String) (fallback : List Text) : SettingsField (List Text) :=
  ⟨"catalog", name, "a list of strings", Json.toTexts?, fallback⟩

/-- The endings of declaration files. -/
def docExtensionsField : SettingsField (List Text) :=
  catalogTexts "docExtensions" standard.catalog.docExtensions

/-- How the declared names begin that are kept. -/
def docPrefixesField : SettingsField (List Text) :=
  catalogTexts "docPrefixes" standard.catalog.docPrefixes

/-- The directories that hold declaration files. -/
def docRootsField : SettingsField (List Text) :=
  catalogTexts "docRoots" standard.catalog.docRoots

/-- How many levels below a root are searched. -/
def maxDepthField : SettingsField Nat :=
  ⟨"catalog", "maxDepth", "a non-negative integer", Json.toCount?, standard.catalog.maxDepth⟩

/-- Whether directories below the roots are searched. -/
def recursiveField : SettingsField Bool :=
  ⟨"catalog", "recursive", "true or false", Json.toBool?, standard.catalog.recursive⟩

/-- The endings of source files. -/
def sourceExtensionsField : SettingsField (List Text) :=
  catalogTexts "sourceExtensions" standard.catalog.sourceExtensions

/-- The directories that hold source files. -/
def sourceRootsField : SettingsField (List Text) :=
  catalogTexts "sourceRoots" standard.catalog.sourceRoots

/-- The forms whose arguments line up at a set offset. -/
def alignFormsField : SettingsField OffsetTable :=
  ⟨"indent", "alignForms", "an object mapping form names to non-negative integers",
    Json.toOffsets?, standard.indent.alignForms⟩

/-- A field of the indentation section that holds a list of strings. -/
def indentTexts (name : String) (fallback : List Text) : SettingsField (List Text) :=
  ⟨"indent", name, "a list of strings", Json.toTexts?, fallback⟩

/-- The forms that begin with a list of bindings. -/
def bindingFormsField : SettingsField (List Text) :=
  indentTexts "bindingForms" standard.indent.bindingForms

/-- The forms that hold a block. -/
def blockFormsField : SettingsField (List Text) :=
  indentTexts "blockForms" standard.indent.blockForms

/-- The forms that define classes. -/
def classFormsField : SettingsField (List Text) :=
  indentTexts "classForms" standard.indent.classForms

/-- The forms that define functions. -/
def definitionFormsField : SettingsField (List Text) :=
  indentTexts "definitionForms" standard.indent.definitionForms

/-- How far keyword parameters are set in. -/
def keywordParamOffsetField : SettingsField Int :=
  ⟨"indent", "keywordParamOffset", "a non-negative integer",
    fun v => v.toCount?.map fun n => (n : Int), standard.indent.keywordParamOffset⟩

/-- How keyword parameters begin. -/
def keywordParamPrefixField : SettingsField Text :=
  ⟨"indent", "keywordParamPrefix", "a non-empty string", Json.toNonEmptyText?,
    standard.indent.keywordParamPrefix⟩

/-- How many closer lines above a closer line are re-aligned with it. -/
def maxDedentStepsField : SettingsField Nat :=
  ⟨"indent", "maxDedentSteps", "a non-negative integer", Json.toCount?,
    standard.indent.maxDedentSteps⟩

/-- How many siblings a walk visits before it gives up. -/
def maxStepsField : SettingsField Nat :=
  ⟨"indent", "maxSteps", "a non-negative integer", Json.toCount?, standard.indent.maxSteps⟩

/-- The forms that wrap a body. -/
def wrappingFormsField : SettingsField (List Text) :=
  indentTexts "wrappingForms" standard.indent.wrappingForms

/-! ### All fields together -/

/-- What the objects in settings have besides their own members. -/
def backgroundOf (v : Json) : SettingsBackground where
  prefixes := ((categoryPrefixesField.accepted? v).map Json.inheritedPrefixes).getD []
  categoryPrefixesKind := ((categoryPrefixesField.accepted? v).getD .emptyObject).kind?
  alignFormsKind := ((alignFormsField.accepted? v).getD .emptyObject).kind?

/-- The settings that an object holds. -/
def ofJson (v : Json) : Settings where
  catalog :=
    { categoryPrefixes := categoryPrefixesField.value v
      docExtensions := docExtensionsField.value v
      docPrefixes := docPrefixesField.value v
      docRoots := docRootsField.value v
      maxDepth := maxDepthField.value v
      recursive := recursiveField.value v
      sourceExtensions := sourceExtensionsField.value v
      sourceRoots := sourceRootsField.value v }
  indent :=
    { alignForms := alignFormsField.value v
      bindingForms := bindingFormsField.value v
      blockForms := blockFormsField.value v
      classForms := classFormsField.value v
      definitionForms := definitionFormsField.value v
      keywordParamOffset := keywordParamOffsetField.value v
      keywordParamPrefix := keywordParamPrefixField.value v
      maxDedentSteps := maxDedentStepsField.value v
      maxSteps := maxStepsField.value v
      wrappingForms := wrappingFormsField.value v }
  logLevel := logLevelField.value v
  background := backgroundOf v

/-- The report on a section that is there, but no object. -/
def groupWarnings (v : Json) (file : Option Text) (group : String) : List LogEntry :=
  match v.get? (.ofString group) with
  | some (.object ..) | none => []
  | some _ => [ignoredSetting group file "an object"]

/-- The reports on everything in an object that is ignored: first sections, then fields. -/
def warningsOf (v : Json) (file : Option Text) : List LogEntry :=
  groups.flatMap (groupWarnings v file) ++
    logLevelField.warnings v file ++
    categoryPrefixesField.warnings v file ++
    docExtensionsField.warnings v file ++
    docPrefixesField.warnings v file ++
    docRootsField.warnings v file ++
    maxDepthField.warnings v file ++
    recursiveField.warnings v file ++
    sourceExtensionsField.warnings v file ++
    sourceRootsField.warnings v file ++
    alignFormsField.warnings v file ++
    bindingFormsField.warnings v file ++
    blockFormsField.warnings v file ++
    classFormsField.warnings v file ++
    definitionFormsField.warnings v file ++
    keywordParamOffsetField.warnings v file ++
    keywordParamPrefixField.warnings v file ++
    maxDedentStepsField.warnings v file ++
    maxStepsField.warnings v file ++
    wrappingFormsField.warnings v file

end Settings

end SexpEditing
