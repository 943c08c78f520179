import SexpEditing.Json.Parser

/-!
# The grammar of JSON

What the lexemes of a text say if nothing is wrong with them. A comma may follow the last item of a
list and the last member of an object. The reader finds what the grammar says, and reports nothing.

## Main definitions

* `Json.Says`, `Json.SaysMembers`, `Json.SaysItems`: what lexemes say, and the lexemes that follow
* `JsonCursor.IsAt`: the places before lexemes with which nothing is wrong

## Main statements

* `Json.value?_of_says`: the reader finds the value that the lexemes say
* `Json.ofText_of_says`: a text with such lexemes has that value, and no reports
-/

namespace SexpEditing

/-- The value that a lexeme is by itself. -/
def JsonLexeme.scalar? : JsonLexeme → Option Json
  | .string t => some (.string t)
  | .number n => some (.number n)
  | .keyword v => some v
  | _ => none

namespace Json

mutual

/-- The value that lexemes say, and the lexemes after it. -/
inductive Says : List JsonLexeme → Json → List JsonLexeme → Prop
  | scalar {l : JsonLexeme} {v : Json} {rest : List JsonLexeme} (h : l.scalar? = some v) :
      Says (l :: rest) v rest
  | object {o : Json} {lexemes rest : List JsonLexeme}
      (h : SaysMembers false emptyObject lexemes o rest) : Says (.openBrace :: lexemes) o rest
  | array {items : List Json} {lexemes rest : List JsonLexeme}
      (h : SaysItems false [] lexemes items rest) :
      Says (.openBracket :: lexemes) (.array items.reverse) rest

/-- The object with the members that lexemes say, up to the closing brace, added to another one. A
comma is due after a member. -/
inductive SaysMembers : Bool → Json → List JsonLexeme → Json → List JsonLexeme → Prop
  | close {commaDue : Bool} {o : Json} {rest : List JsonLexeme} :
      SaysMembers commaDue o (.closeBrace :: rest) o rest
  | lastComma {o : Json} {rest : List JsonLexeme} :
      SaysMembers true o (.comma :: .closeBrace :: rest) o rest
  | first {o o' v : Json} {key : Text} {lexemes more rest : List JsonLexeme}
      (hvalue : Says lexemes v more) (hmore : SaysMembers true (o.setMember key v) more o' rest) :
      SaysMembers false o (.string key :: .colon :: lexemes) o' rest
  | next {o o' v : Json} {key : Text} {lexemes more rest : List JsonLexeme}
      (hvalue : Says lexemes v more) (hmore : SaysMembers true (o.setMember key v) more o' rest) :
      SaysMembers true o (.comma :: .string key :: .colon :: lexemes) o' rest

/-- The items that lexemes say, up to the closing bracket, put before others. -/
inductive SaysItems : Bool → List Json → List JsonLexeme → List Json → List JsonLexeme → Prop
  | close {commaDue : Bool} {items : List Json} {rest : List JsonLexeme} :
      SaysItems commaDue items (.closeBracket :: rest) items rest
  | lastComma {items : List Json} {rest : List JsonLexeme} :
      SaysItems true items (.comma :: .closeBracket :: rest) items rest
  | first {items items' : List Json} {v : Json} {lexemes more rest : List JsonLexeme}
      (hvalue : Says lexemes v more) (hmore : SaysItems true (v :: items) more items' rest) :
      SaysItems false items lexemes items' rest
  | next {items items' : List Json} {v : Json} {lexemes more rest : List JsonLexeme}
      (hvalue : Says lexemes v more) (hmore : SaysItems true (v :: items) more items' rest) :
      SaysItems true items (.comma :: lexemes) items' rest

end

end Json

namespace JsonCursor

/-- A place before lexemes, up to which nothing was reported, and after which nothing will be by the
lexer. -/
structure IsAt (s : JsonCursor) (lexemes : List JsonLexeme) : Prop where
  upcoming : s.upcoming.map PlacedLexeme.lexeme = lexemes
  reports : s.reports = []
  later : ∀ l ∈ s.upcoming, l.reports = []
  final : s.finalReports = []

variable {s : JsonCursor} {l : JsonLexeme} {lexemes : List JsonLexeme}

theorem IsAt.current (h : s.IsAt (l :: lexemes)) : s.current = some l := by
  obtain ⟨_ | ⟨p, rest⟩, _, _, _⟩ := s
  · exact absurd h.upcoming (by simp)
  · exact congrArg some (List.cons.inj h.upcoming).1

theorem IsAt.current_nil (h : s.IsAt []) : s.current = none := by
  rw [JsonCursor.current, List.map_eq_nil_iff.mp h.upcoming]
  rfl

theorem IsAt.arrive (h : s.IsAt lexemes) : s.arrive.IsAt lexemes := by
  refine ⟨h.upcoming, ?_, h.later, h.final⟩
  simp only [JsonCursor.arrive, h.reports, List.append_nil, List.reverse_eq_nil_iff]
  split
  · exact h.final
  · next p rest hp => exact h.later p (hp ▸ List.mem_cons_self)

theorem IsAt.advance (h : s.IsAt (l :: lexemes)) : s.advance.IsAt lexemes := by
  obtain ⟨_ | ⟨p, rest⟩, _, _, _⟩ := s
  · exact absurd h.upcoming (by simp)
  · exact IsAt.arrive ⟨(List.cons.inj h.upcoming).2, h.reports,
      fun q hq => h.later q (List.mem_cons_of_mem _ hq), h.final⟩

end JsonCursor

namespace Json

open JsonCursor

/-! ### One step of the reader -/

variable {s : JsonCursor}

theorem value?_scalar {l : JsonLexeme} {v : Json} (h : s.current = some l)
    (hl : l.scalar? = some v) : ∃ r, value? s = some (v, r) ∧ r.1 = s.advance := by
  unfold value?
  split
  · simp_all
  · next lexeme h' =>
    obtain rfl := Option.some.inj (h'.symm.trans h)
    cases lexeme with
    | string | number | keyword =>
      obtain rfl := Option.some.inj hl
      exact ⟨_, rfl, rfl⟩
    | _ => cases hl

theorem value?_openBrace (h : s.current = some .openBrace) :
    ∃ r, value? s = some ((membersFrom s.advance false emptyObject).1, r) ∧
      r.1 = (membersFrom s.advance false emptyObject).2.1 := by
  unfold value?
  split
  · simp_all
  · next lexeme h' =>
    obtain rfl := Option.some.inj (h'.symm.trans h)
    exact ⟨_, rfl, rfl⟩

theorem value?_openBracket (h : s.current = some .openBracket) :
    ∃ r, value? s = some (.array (itemsFrom s.advance false []).1.reverse, r) ∧
      r.1 = (itemsFrom s.advance false []).2.1 := by
  unfold value?
  split
  · simp_all
  · next lexeme h' =>
    obtain rfl := Option.some.inj (h'.symm.trans h)
    exact ⟨_, rfl, rfl⟩

theorem memberValue_colon {key : Text} {o v : Json}
    {r : { r : JsonCursor // r.size < s.advance.size }} (h : s.current = some .colon)
    (hv : value? s.advance = some (v, r)) :
    (memberValue s key o).1 = o.setMember key v ∧ (memberValue s key o).2.1 = r.1 := by
  unfold memberValue
  split
  · rw [hv]
    exact ⟨rfl, rfl⟩
  · simp_all

theorem membersFrom_closeBrace {commaDue : Bool} {o : Json}
    (h : s.current = some .closeBrace) :
    (membersFrom s commaDue o).1 = o ∧ (membersFrom s commaDue o).2.1 = s.advance := by
  unfold membersFrom
  split
  · simp_all
  · next lexeme h' =>
    obtain rfl := Option.some.inj (h'.symm.trans h)
    exact ⟨rfl, rfl⟩

theorem membersFrom_lastComma {o : Json} (h : s.current = some .comma)
    (h' : s.advance.current = some .closeBrace) :
    (membersFrom s true o).1 = o ∧ (membersFrom s true o).2.1 = s.advance.advance := by
  unfold membersFrom
  split
  · simp_all
  · next lexeme hl =>
    obtain rfl := Option.some.inj (hl.symm.trans h)
    simp only [Bool.not_true, faultIf, Bool.false_eq_true, ↓reduceIte]
    split
    · exact ⟨rfl, rfl⟩
    all_goals simp_all

theorem membersFrom_first {key : Text} {o : Json} (h : s.current = some (.string key)) :
    let p := memberValue s.advance key o
    (membersFrom s false o).1 = (membersFrom p.2.1 true p.1).1 ∧
      (membersFrom s false o).2.1 = (membersFrom p.2.1 true p.1).2.1 := by
  rw [membersFrom]
  split
  · simp_all
  · next lexeme hl =>
    obtain rfl := Option.some.inj (hl.symm.trans h)
    exact ⟨rfl, rfl⟩

theorem membersFrom_next {key : Text} {o : Json} (h : s.current = some .comma)
    (h' : s.advance.current = some (.string key)) :
    let p := memberValue s.advance.advance key o
    (membersFrom s true o).1 = (membersFrom p.2.1 true p.1).1 ∧
      (membersFrom s true o).2.1 = (membersFrom p.2.1 true p.1).2.1 := by
  rw [membersFrom]
  split
  · simp_all
  · next lexeme hl =>
    obtain rfl := Option.some.inj (hl.symm.trans h)
    simp only [Bool.not_true, faultIf, Bool.false_eq_true, ↓reduceIte]
    split
    · simp_all
    · next other ho =>
      obtain rfl := JsonLexeme.string.inj (Option.some.inj (ho.symm.trans h'))
      exact ⟨rfl, rfl⟩
    · next hne => exact absurd h' (hne key)

theorem itemsFrom_closeBracket {commaDue : Bool} {items : List Json}
    (h : s.current = some .closeBracket) :
    (itemsFrom s commaDue items).1 = items ∧ (itemsFrom s commaDue items).2.1 = s.advance := by
  unfold itemsFrom
  split
  · simp_all
  · next lexeme h' =>
    obtain rfl := Option.some.inj (h'.symm.trans h)
    exact ⟨rfl, rfl⟩

theorem itemsFrom_lastComma {items : List Json} (h : s.current = some .comma)
    (h' : s.advance.current = some .closeBracket) :
    (itemsFrom s true items).1 = items ∧ (itemsFrom s true items).2.1 = s.advance.advance := by
  unfold itemsFrom
  split
  · simp_all
  · next lexeme hl =>
    obtain rfl := Option.some.inj (hl.symm.trans h)
    simp only [Bool.not_true, faultIf, Bool.false_eq_true, ↓reduceIte]
    split
    · exact ⟨rfl, rfl⟩
    · simp_all

/-- No value begins with a comma or a closing bracket. -/
theorem current_of_value? {p : Json × { r : JsonCursor // r.size < s.size }}
    (h : value? s = some p) :
    ∃ l, s.current = some l ∧ l ≠ .comma ∧ l ≠ .closeBracket := by
  unfold value? at h
  split at h
  · cases h
  · next l hl =>
    refine ⟨l, hl, ?_, ?_⟩
    · rintro rfl
      cases h
    · rintro rfl
      cases h

theorem itemsFrom_first {items : List Json} {v : Json} {r : { r : JsonCursor // r.size < s.size }}
    (hv : value? s = some (v, r)) :
    (itemsFrom s false items).1 = (itemsFrom r.1 true (v :: items)).1 ∧
      (itemsFrom s false items).2.1 = (itemsFrom r.1 true (v :: items)).2.1 := by
  obtain ⟨l, hl, hcomma, hbracket⟩ := current_of_value? hv
  have hv' : value? (s.faultIf false .commaExpected) = some (v, r) := hv
  rw [itemsFrom]
  split
  · simp_all
  · next lexeme hl' =>
    obtain rfl := Option.some.inj (hl'.symm.trans hl)
    split
    · exact absurd rfl hbracket
    · exact absurd rfl hcomma
    · constructor <;> simp only [hv']

theorem itemsFrom_next {items : List Json} {v : Json}
    {r : { r : JsonCursor // r.size < s.advance.size }} (h : s.current = some .comma)
    (hv : value? s.advance = some (v, r)) :
    (itemsFrom s true items).1 = (itemsFrom r.1 true (v :: items)).1 ∧
      (itemsFrom s true items).2.1 = (itemsFrom r.1 true (v :: items)).2.1 := by
  obtain ⟨l, hl, -, hbracket⟩ := current_of_value? hv
  have hv' : value? (s.faultIf (!true) .valueExpected).advance = some (v, r) := hv
  rw [itemsFrom]
  split
  · simp_all
  · next lexeme hl' =>
    obtain rfl := Option.some.inj (hl'.symm.trans h)
    simp only [hv']
    split
    · next hclose => exact absurd (Option.some.inj (hl.symm.trans hclose)) hbracket
    · exact ⟨rfl, rfl⟩

/-! ### The reader and the grammar

The three statements are proved together, by recursion on what the lexemes say. Each is about any
place before the lexemes, since the reader has moved on when it comes to a member or an item. -/

mutual

/-- The reader finds the value that the lexemes at its place say, and goes on behind them. -/
theorem value?_of_says : ∀ {lexemes rest : List JsonLexeme} {v : Json}, Says lexemes v rest →
    ∀ s : JsonCursor, s.IsAt lexemes → ∃ r, value? s = some (v, r) ∧ r.1.IsAt rest
  | _, _, _, .scalar hl, s, hs => by
    obtain ⟨r, hr, hadvance⟩ := value?_scalar hs.current hl
    exact ⟨r, hr, hadvance ▸ hs.advance⟩
  | _, _, _, .object hmembers, s, hs => by
    obtain ⟨r, hr, hafter⟩ := value?_openBrace hs.current
    obtain ⟨ho, hat⟩ := membersFrom_of_says hmembers s.advance hs.advance
    exact ⟨r, ho ▸ hr, hafter ▸ hat⟩
  | _, _, _, .array hitems, s, hs => by
    obtain ⟨r, hr, hafter⟩ := value?_openBracket hs.current
    obtain ⟨ho, hat⟩ := itemsFrom_of_says hitems s.advance hs.advance
    exact ⟨r, ho ▸ hr, hafter ▸ hat⟩

theorem membersFrom_of_says : ∀ {commaDue : Bool} {o o' : Json} {lexemes rest : List JsonLexeme},
    SaysMembers commaDue o lexemes o' rest → ∀ s : JsonCursor, s.IsAt lexemes →
      (membersFrom s commaDue o).1 = o' ∧ (membersFrom s commaDue o).2.1.IsAt rest
  | _, _, _, _, _, .close, s, hs => by
    obtain ⟨ho, hat⟩ := membersFrom_closeBrace hs.current
    exact ⟨ho, hat ▸ hs.advance⟩
  | _, _, _, _, _, .lastComma, s, hs => by
    obtain ⟨ho, hat⟩ := membersFrom_lastComma hs.current hs.advance.current
    exact ⟨ho, hat ▸ hs.advance.advance⟩
  | _, _, _, _, _, .first hvalue hmore, s, hs => by
    obtain ⟨r, hr, hat⟩ := value?_of_says hvalue _ hs.advance.advance
    obtain ⟨ho, hafter⟩ := memberValue_colon hs.advance.current hr
    obtain ⟨ho', hat'⟩ := membersFrom_first hs.current
    rw [ho', hat', ho, hafter]
    exact membersFrom_of_says hmore r.1 hat
  | _, _, _, _, _, .next hvalue hmore, s, hs => by
    obtain ⟨r, hr, hat⟩ := value?_of_says hvalue _ hs.advance.advance.advance
    obtain ⟨ho, hafter⟩ := memberValue_colon hs.advance.advance.current hr
    obtain ⟨ho', hat'⟩ := membersFrom_next hs.current hs.advance.current
    rw [ho', hat', ho, hafter]
    exact membersFrom_of_says hmore r.1 hat

theorem itemsFrom_of_says : ∀ {commaDue : Bool} {items items' : List Json}
    {lexemes rest : List JsonLexeme}, SaysItems commaDue items lexemes items' rest →
      ∀ s : JsonCursor, s.IsAt lexemes →
        (itemsFrom s commaDue items).1 = items' ∧ (itemsFrom s commaDue items).2.1.IsAt rest
  | _, _, _, _, _, .close, s, hs => by
    obtain ⟨hitems, hat⟩ := itemsFrom_closeBracket hs.current
    exact ⟨hitems, hat ▸ hs.advance⟩
  | _, _, _, _, _, .lastComma, s, hs => by
    obtain ⟨hitems, hat⟩ := itemsFrom_lastComma hs.current hs.advance.current
    exact ⟨hitems, hat ▸ hs.advance.advance⟩
  | _, _, _, _, _, .first hvalue hmore, s, hs => by
    obtain ⟨r, hr, hat⟩ := value?_of_says hvalue s hs
    obtain ⟨hitems, hafter⟩ := itemsFrom_first hr
    rw [hitems, hafter]
    exact itemsFrom_of_says hmore r.1 hat
  | _, _, _, _, _, .next hvalue hmore, s, hs => by
    obtain ⟨r, hr, hat⟩ := value?_of_says hvalue _ hs.advance
    obtain ⟨hitems, hafter⟩ := itemsFrom_next hs.current hr
    rw [hitems, hafter]
    exact itemsFrom_of_says hmore r.1 hat

end

/-- A text whose lexemes say a value has that value, and nothing is wrong with it. -/
theorem ofText_of_says {t : Text} {lexemes : List JsonLexeme} {v : Json}
    (hlexemes : (lex t).lexemes.map PlacedLexeme.lexeme = lexemes)
    (hreports : ∀ l ∈ (lex t).lexemes, l.reports = []) (hfinal : (lex t).finalReports = [])
    (h : Says lexemes v []) : ofText t = (some v, []) := by
  have hat : (JsonCursor.ofLexemes (lex t)).IsAt lexemes :=
    IsAt.arrive ⟨hlexemes, rfl, hreports, hfinal⟩
  obtain ⟨r, hr, hend⟩ := value?_of_says h _ hat
  simp only [ofText, hr, hend.current_nil, Option.isSome_none, faultIf, Bool.false_eq_true,
    ↓reduceIte, hend.reports, List.reverse_nil]

end Json

end SexpEditing
