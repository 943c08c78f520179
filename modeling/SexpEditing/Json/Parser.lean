import SexpEditing.Json.Lexer

/-!
# Reading JSON with comments

Commas may follow the last item of a list and the last member of an object. Faults do not stop the
reader: it reports what is wrong, skips to a place where it can go on, and reports further faults
from there.

## Main definitions

* `JsonCursor`: the lexemes still to be read, and the reports so far
* `Json.value?`, `Json.membersFrom`, `Json.itemsFrom`: values, members and items
* `Json.ofText`: the value of a text, and all reports
-/

namespace SexpEditing

/-- The kinds of lexemes at which the reader goes on after a fault. -/
inductive JsonStop
  | braceOrComma
  | bracketOrComma
deriving DecidableEq, Repr

/-- Whether the reader goes on at a lexeme. -/
def JsonStop.at : JsonStop → JsonLexeme → Bool
  | .braceOrComma, .closeBrace | .bracketOrComma, .closeBracket | _, .comma => true
  | _, _ => false

/-- A place between lexemes, and what was reported up to there, the last report first. -/
structure JsonCursor where
  upcoming : List PlacedLexeme
  length : Nat
  finalReports : List JsonReport
  reports : List JsonReport

namespace JsonCursor

/-- The lexeme at a place, if the text does not end there. -/
def current (s : JsonCursor) : Option JsonLexeme := s.upcoming.head?.map PlacedLexeme.lexeme

/-- The number of lexemes still to be read. -/
def size (s : JsonCursor) : Nat := s.upcoming.length

/-- Makes the reports that are due when the lexeme at a place is reached. -/
def arrive (s : JsonCursor) : JsonCursor :=
  let due := match s.upcoming with
    | [] => s.finalReports
    | l :: _ => l.reports
  { s with reports := due.reverse ++ s.reports }

/-- The place before the first lexeme. -/
def ofLexemes (l : JsonLexemes) : JsonCursor :=
  arrive ⟨l.lexemes, l.length, l.finalReports, []⟩

/-- The place after the next lexeme. -/
def advance (s : JsonCursor) : JsonCursor :=
  match s.upcoming with
  | [] => s
  | _ :: rest => arrive { s with upcoming := rest }

/-- Reports a fault of the lexeme at a place. -/
def fault (s : JsonCursor) (f : JsonFault) : JsonCursor :=
  let offset := match s.upcoming with
    | [] => s.length
    | l :: _ => l.offset
  { s with reports := ⟨f, offset⟩ :: s.reports }

/-- Reports a fault if there is one. -/
def faultIf (s : JsonCursor) (condition : Bool) (f : JsonFault) : JsonCursor :=
  if condition then s.fault f else s

@[simp] theorem size_arrive (s : JsonCursor) : s.arrive.size = s.size := rfl

@[simp] theorem size_fault (s : JsonCursor) (f : JsonFault) : (s.fault f).size = s.size := rfl

@[simp] theorem size_faultIf (s : JsonCursor) (c : Bool) (f : JsonFault) :
    (s.faultIf c f).size = s.size := by
  cases c <;> rfl

@[simp] theorem size_advance (s : JsonCursor) : s.advance.size = s.size - 1 := by
  unfold advance
  split
  · next h => simp [size, h]
  · next h => simp [size, arrive, h]

theorem size_pos_of_current {s : JsonCursor} {l : JsonLexeme} (h : s.current = some l) :
    0 < s.size := by
  rcases s with ⟨_ | ⟨_, _⟩, _, _, _⟩
  · simp [current] at h
  · simp [size]

/-- The next place at or after this one at which the reader can go on, or the end. -/
def skipTo (s : JsonCursor) (stop : JsonStop) : JsonCursor :=
  match _h : s.current with
  | none => s
  | some l => if stop.at l then s else skipTo s.advance stop
termination_by s.size
decreasing_by
  have := size_pos_of_current _h
  simp only [size_advance]
  omega

theorem size_skipTo_le (s : JsonCursor) (stop : JsonStop) : (s.skipTo stop).size ≤ s.size := by
  fun_induction skipTo s stop with
  | case1 => exact Nat.le_refl _
  | case2 => exact Nat.le_refl _
  | case3 s l h hs ih =>
    simp only [size_advance] at ih
    omega

end JsonCursor

namespace Json

open JsonCursor

/-- The place after something that is no member, where one is expected. -/
def afterBadMember (s : JsonCursor) : JsonCursor :=
  ((s.fault .propertyNameExpected).skipTo .braceOrComma).fault .valueExpected

theorem size_afterBadMember_le (s : JsonCursor) : (afterBadMember s).size ≤ s.size := by
  have := size_skipTo_le (s.fault .propertyNameExpected) .braceOrComma
  simpa [afterBadMember] using this

mutual

/-- The value at a place, and the place after it, if a value begins there. -/
def value? (s : JsonCursor) : Option (Json × { r : JsonCursor // r.size < s.size }) :=
  match h : s.current with
  | none => none
  | some lexeme =>
    have hs : 0 < s.size := size_pos_of_current h
    have ha : s.advance.size < s.size := by
      simp only [size_advance]
      omega
    match lexeme with
    | .string t => some (.string t, ⟨s.advance, ha⟩)
    | .number n => some (.number n, ⟨s.advance, ha⟩)
    | .keyword v => some (v, ⟨s.advance, ha⟩)
    | .openBrace =>
      let ⟨o, r, hr⟩ := membersFrom s.advance false emptyObject
      some (o, ⟨r, by omega⟩)
    | .openBracket =>
      let ⟨items, r, hr⟩ := itemsFrom s.advance false []
      some (.array items.reverse, ⟨r, by omega⟩)
    | _ => none
termination_by (s.size, 0)

/-- The members at a place, added to an object, and the place after its closing brace. -/
def membersFrom (s : JsonCursor) (commaDue : Bool) (o : Json) :
    Json × { r : JsonCursor // r.size ≤ s.size } :=
  match h : s.current with
  | none => (o, ⟨s.fault .closeBraceExpected, by simp⟩)
  | some lexeme =>
    have hs : 0 < s.size := size_pos_of_current h
    match lexeme with
    | .closeBrace => (o, ⟨s.advance, by simp⟩)
    | .comma =>
      let s₁ := (s.faultIf (!commaDue) .valueExpected).advance
      have h₁ : s₁.size < s.size := by
        simp only [s₁, size_advance, size_faultIf]
        omega
      match s₁.current with
      | some .closeBrace =>
        (o, ⟨s₁.advance, by simp only [size_advance]; omega⟩)
      | some (.string key) =>
        have h₂ : s₁.advance.size < s.size := by
          simp only [size_advance]
          omega
        let ⟨o, r, hr⟩ := memberValue s₁.advance key o
        let ⟨o, r', hr'⟩ := membersFrom r true o
        (o, ⟨r', by omega⟩)
      | _ =>
        have h₂ : (afterBadMember s₁).size < s.size :=
          Nat.lt_of_le_of_lt (size_afterBadMember_le _) h₁
        let ⟨o, r, hr⟩ := membersFrom (afterBadMember s₁) true o
        (o, ⟨r, by omega⟩)
    | .string key =>
      let s₁ := (s.faultIf commaDue .commaExpected).advance
      have h₁ : s₁.size < s.size := by
        simp only [s₁, size_advance, size_faultIf]
        omega
      let ⟨o, r, hr⟩ := memberValue s₁ key o
      let ⟨o, r', hr'⟩ := membersFrom r true o
      (o, ⟨r', by omega⟩)
    | _ =>
      -- what stands here is no place to go on at, so it is passed over in any case
      let s₁ := ((s.faultIf commaDue .commaExpected).fault .propertyNameExpected).advance
      have h₁ : s₁.size < s.size := by
        simp only [s₁, size_advance, size_fault, size_faultIf]
        omega
      have h₂ : ((s₁.skipTo .braceOrComma).fault .valueExpected).size < s.size :=
        Nat.lt_of_le_of_lt (size_skipTo_le _ _) h₁
      let ⟨o, r, hr⟩ :=
        membersFrom ((s₁.skipTo .braceOrComma).fault .valueExpected) true o
      (o, ⟨r, by omega⟩)
termination_by (s.size, 2)

/-- The value of a member after its key, added to an object. -/
def memberValue (s : JsonCursor) (key : Text) (o : Json) :
    Json × { r : JsonCursor // r.size ≤ s.size } :=
  match h : s.current with
  | some .colon =>
    have ha : s.advance.size < s.size := by
      have := size_pos_of_current h
      simp only [size_advance]
      omega
    match value? s.advance with
    | some (v, ⟨r, hr⟩) => (o.setMember key v, ⟨r, by omega⟩)
    | none =>
      (o, ⟨(s.advance.fault .valueExpected).skipTo .braceOrComma, by
        have := size_skipTo_le (s.advance.fault .valueExpected) .braceOrComma
        simp only [size_fault] at this
        omega⟩)
  | _ =>
    (o, ⟨(s.fault .colonExpected).skipTo .braceOrComma, by
      have := size_skipTo_le (s.fault .colonExpected) .braceOrComma
      simpa using this⟩)
termination_by (s.size, 1)

/-- The items at a place, put before others, and the place after the closing bracket. The last
item comes first. -/
def itemsFrom (s : JsonCursor) (commaDue : Bool) (items : List Json) :
    List Json × { r : JsonCursor // r.size ≤ s.size } :=
  match h : s.current with
  | none => (items, ⟨s.fault .closeBracketExpected, by simp⟩)
  | some lexeme =>
    have hs : 0 < s.size := size_pos_of_current h
    match lexeme with
    | .closeBracket => (items, ⟨s.advance, by simp⟩)
    | .comma =>
      let s₁ := (s.faultIf (!commaDue) .valueExpected).advance
      have h₁ : s₁.size < s.size := by
        simp only [s₁, size_advance, size_faultIf]
        omega
      match s₁.current with
      | some .closeBracket =>
        (items, ⟨s₁.advance, by simp only [size_advance]; omega⟩)
      | _ =>
        match value? s₁ with
        | some (v, ⟨r, hr⟩) =>
          let ⟨items, r', hr'⟩ := itemsFrom r true (v :: items)
          (items, ⟨r', by omega⟩)
        | none =>
          have h₂ : ((s₁.fault .valueExpected).skipTo .bracketOrComma).size < s.size :=
            Nat.lt_of_le_of_lt (size_skipTo_le _ _) (by simpa using h₁)
          let ⟨items, r, hr⟩ :=
            itemsFrom ((s₁.fault .valueExpected).skipTo .bracketOrComma) true items
          (items, ⟨r, by omega⟩)
    | _ =>
      let s₁ := s.faultIf commaDue .commaExpected
      have h₀ : s₁.size = s.size := size_faultIf _ _ _
      match value? s₁ with
      | some (v, ⟨r, hr⟩) =>
        let ⟨items, r', hr'⟩ := itemsFrom r true (v :: items)
        (items, ⟨r', by omega⟩)
      | none =>
        -- what stands here is no place to go on at, so it is passed over in any case
        let s₂ := (s₁.fault .valueExpected).advance
        have h₁ : s₂.size < s.size := by
          simp only [s₂, size_advance, size_fault]
          omega
        have h₂ : (s₂.skipTo .bracketOrComma).size < s.size :=
          Nat.lt_of_le_of_lt (size_skipTo_le _ _) h₁
        let ⟨items, r, hr⟩ := itemsFrom (s₂.skipTo .bracketOrComma) true items
        (items, ⟨r, by omega⟩)
termination_by (s.size, 2)

end

/-- The value of a text, if one begins it, and all that is wrong with the text, in the order in
which it was found. -/
def ofText : JsonParser := fun t =>
  let s := JsonCursor.ofLexemes (lex t)
  match value? s with
  | none => (none, (s.fault .valueExpected).reports.reverse)
  | some (v, ⟨r, _⟩) => (some v, (r.faultIf r.current.isSome .endOfFileExpected).reports.reverse)

end Json

end SexpEditing
