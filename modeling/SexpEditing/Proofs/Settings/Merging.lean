import SexpEditing.Proofs.Json.Grammar
import SexpEditing.Proofs.Settings.Keys
import SexpEditing.Settings.File

/-!
# Merging settings

Settings are merged field by field over those that hold where nothing is set. What is read under a
key depends on nothing but the value there, and what is read passes its guard.

## Main statements

* `Settings.ofText_merges`: what is read of a text that is an object, and of one that is none
-/

namespace SexpEditing.Settings

/-- A text in which a reader finds nothing wrong, and no object, is refused without a report. One in
which it finds an object of plain values is read key by key: a value that passes the guard of its
key is taken, and the standard one stands in any other case. So all that is read passes its guard.
There is one report on each section that is no object, and one on each value that does not pass. A
change under one key changes nothing that is read under the others. -/
theorem ofText_merges (parse : JsonParser) (t : Text) (file : Option Text) (parsed : Option Json)
    (hparsed : parse t = (parsed, [])) :
    (∀ v, parsed = some v → v.isObject = true → v.Plain →
      ofText parse t file = (.ok (ofJson v), warningsOf v file) ∧
      (∀ k : SettingsKey,
        (∀ w, k.find? v = some w → k.guard.passes w = true → k.guard.Means w (k.get (ofJson v))) ∧
        ((∀ w, k.find? v = some w → k.guard.passes w = false) →
          k.get (ofJson v) = k.get standard) ∧
        k.IsValid (ofJson v)) ∧
      ((∀ entry ∈ warningsOf v file, ∃ text, entry = .warn text) ∧
        (warningsOf v file).length =
          (["catalog", "indent", "log"].filter (isMisplaced v)).length +
            (SettingsKey.all.filter fun k => k.isRejected v).length) ∧
      ∀ (k : SettingsKey) (value : Option Json), k.find? (k.assign value v) = value ∧
        k.AgreeExcept (ofJson v) (ofJson (k.assign value v))) ∧
    ((∀ v, parsed = some v → v.isObject = false) →
      ofText parse t file = (.error ⟨.notAnObject, file⟩, [])) := by
  refine ⟨fun v hv hobject hplain => ⟨?_, fun k => ⟨?_, ?_, ?_⟩, ⟨?_, ?_⟩, fun k value => ⟨?_, ?_⟩⟩,
    fun hnone => ?_⟩
  · subst hv
    cases v with
    | object members inherited root => rw [ofText, hparsed]
    | _ => cases hobject
  · exact fun w hfind hpass => SettingsKey.get_ofJson_of_passes hplain hfind hpass
  · exact SettingsKey.get_ofJson_of_not_passes
  · exact SettingsKey.isValid_ofJson hplain k
  · intro entry hentry
    rw [warningsOf_eq, List.mem_append, List.mem_map, List.mem_map] at hentry
    rcases hentry with ⟨_, -, rfl⟩ | ⟨_, -, rfl⟩
    · exact ⟨_, rfl⟩
    · exact ⟨_, rfl⟩
  · rw [warningsOf_eq, List.length_append, List.length_map, List.length_map]
  · exact SettingsKey.find?_assign_self hplain hobject k value
  · exact SettingsKey.agreeExcept_ofJson fun l hl =>
      (SettingsKey.find?_assign_of_ne hplain hobject hl value).symm
  · rw [ofText, hparsed]
    cases parsed with
    | none => rfl
    | some v =>
      cases v with
      | object members inherited root => cases hnone _ rfl
      | _ => rfl

/-! ### A mixed file -/

/-- Settings in which one section is no object, and one value does not pass. -/
def mixedText : Text :=
  .ofString ("\x7b\"catalog\":3,\"indent\":\x7b\"maxSteps\":5,\"blockForms\":7\x7d," ++
    "\"log\":\x7b\"level\":\"WARN\"\x7d\x7d")

/-- The indentation section of these settings. -/
def mixedIndent : Json :=
  .object [(.ofString "maxSteps", .number ⟨false, 5, 0⟩),
    (.ofString "blockForms", .number ⟨false, 7, 0⟩)] [] .objects

/-- The value of that text. -/
def mixedJson : Json :=
  .object
    [(.ofString "catalog", .number ⟨false, 3, 0⟩), (.ofString "indent", mixedIndent),
      (.ofString "log", .object [(.ofString "level", .string (.ofString "WARN"))] [] .objects)]
    [] .objects

theorem lexemes_mixedText : (Json.lex mixedText).lexemes.map PlacedLexeme.lexeme =
    [.openBrace, .string (.ofString "catalog"), .colon, .number ⟨false, 3, 0⟩, .comma,
      .string (.ofString "indent"), .colon, .openBrace,
      .string (.ofString "maxSteps"), .colon, .number ⟨false, 5, 0⟩, .comma,
      .string (.ofString "blockForms"), .colon, .number ⟨false, 7, 0⟩, .closeBrace, .comma,
      .string (.ofString "log"), .colon, .openBrace,
      .string (.ofString "level"), .colon, .string (.ofString "WARN"), .closeBrace,
      .closeBrace] := by
  with_unfolding_all rfl

theorem ofText_mixedText : Json.ofText mixedText = (some mixedJson, []) := by
  refine Json.ofText_of_says lexemes_mixedText (by decide +kernel) (by decide +kernel) ?_
  exact .object (.first (.scalar rfl)
    (.next (.object (.first (.scalar rfl) (.next (.scalar rfl) .close)))
      (.next (.object (.first (.scalar rfl) .close)) .close)))

theorem plain_mixedJson : mixedJson.Plain := by
  have hindent : mixedIndent.Plain := .object (by decide) (by simp [Json.Plain.number])
  have hlog (name : Text) : (Json.object [(.ofString "level", .string name)] [] .objects).Plain :=
    .object (by simp) (by simp [Json.Plain.string])
  exact .object (by decide) (by simp [Json.Plain.number, hindent, hlog])

theorem ofText_merges_mixedText : ∃ s reports,
    ofText Json.ofText mixedText none = (.ok s, reports) ∧
    s.indent.maxSteps = 5 ∧ s.indent.blockForms = standard.indent.blockForms ∧
    s.logLevel = .warn ∧ reports.length = 2 := by
  obtain ⟨hobject, -⟩ := ofText_merges Json.ofText mixedText none (some mixedJson) ofText_mixedText
  obtain ⟨htext, hkeys, ⟨-, hcount⟩, -⟩ := hobject mixedJson rfl rfl plain_mixedJson
  refine ⟨_, _, htext, ?_, ?_, ?_, ?_⟩
  · have hfive : Json.IsNumber (.number ⟨false, 5, 0⟩) 5 :=
      Json.isNumber_of_toOffset? (by decide +kernel)
    have hmeans := (hkeys .maxSteps).1 (.number ⟨false, 5, 0⟩) rfl (by decide +kernel)
    exact Int.ofNat.inj (Json.IsNumber.unique hmeans hfive)
  · refine (hkeys .blockForms).2.1 fun w hw => ?_
    cases hw
    rfl
  · have hwarn : ∀ level : LogLevel,
        (Text.ofString "WARN").lowercase = .ofString level.name → level = .warn := by
      intro level
      cases level <;> decide +kernel
    obtain ⟨name, hname, hlevel⟩ :=
      (hkeys .logLevel).1 (.string (.ofString "WARN")) rfl (by decide +kernel)
    obtain rfl := Json.string.inj hname
    exact hwarn _ hlevel
  · rw [hcount]
    decide +kernel

end SexpEditing.Settings
