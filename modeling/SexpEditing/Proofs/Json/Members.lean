import SexpEditing.Json.Basic

/-!
# Members of plain objects

The value of a text is plain if its objects have no bases: then an object holds what its own
members are, each under a key of its own. One member of an object can be changed by itself.

## Main definitions

* `Json.Plain`: values without bases
* `Json.withMember`: an object in which one member is given, or taken away

## Main statements

* `Json.get?_withMember_self`, `Json.get?_withMember_of_ne`: the member is the one given, and the
  others stay as they are
-/

namespace SexpEditing

namespace Json

/-- Values in which every object rests on the root of all objects alone, and has no key twice. -/
inductive Plain : Json → Prop
  | null : Plain .null
  | bool (b : Bool) : Plain (.bool b)
  | number (n : Decimal) : Plain (.number n)
  | string (t : Text) : Plain (.string t)
  | array {items : List Json} (hitems : ∀ v ∈ items, Plain v) : Plain (.array items)
  | object {members : List (Text × Json)} (hkeys : (members.map Prod.fst).Nodup)
      (hmembers : ∀ m ∈ members, Plain m.2) : Plain (.object members [] .objects)

theorem Plain.emptyObject : Plain emptyObject := .object (by simp) (by simp)

theorem lookup_cons {α : Type} (key k : Text) (value : α) (members : List (Text × α)) :
    ((k, value) :: members).lookup key = if key = k then some value else members.lookup key := by
  rw [List.lookup_cons]
  by_cases h : key = k
  · simp [h]
  · simp [h, beq_eq_false_iff_ne.mpr h]

/-- What members hold under a key is one of them. -/
theorem mem_of_lookup {α : Type} {key : Text} {value : α} {members : List (Text × α)}
    (h : members.lookup key = some value) : (key, value) ∈ members := by
  obtain ⟨_, _, rfl, -⟩ := List.lookup_eq_some_iff.mp h
  simp

theorem lookup_eq_none {α : Type} {key : Text} {members : List (Text × α)}
    (h : key ∉ members.map Prod.fst) : members.lookup key = none := by
  refine List.lookup_eq_none_iff.mpr fun m hm => bne_iff_ne.mpr fun heq => h ?_
  exact List.mem_map.mpr ⟨m, hm, heq.symm⟩

/-- What a plain object holds is plain. -/
theorem Plain.get? {v w : Json} {key : Text} (hv : v.Plain) (h : v.get? key = some w) :
    w.Plain := by
  cases hv with
  | object _ hmembers =>
    rw [get?_object_nil] at h
    exact hmembers _ (mem_of_lookup h)
  | _ => cases h

/-! ### Changing one member -/

/-- An object in which a key holds a value, or nothing. -/
def withMember (key : Text) (value : Option Json) : Json → Json
  | .object members inherited root =>
    .object
      (match value with
        | some w => putMember key w members
        | none => members.filter fun m => m.1 != key)
      inherited root
  | other => other

@[simp] theorem isObject_withMember (key : Text) (value : Option Json) (v : Json) :
    (v.withMember key value).isObject = v.isObject := by
  cases v <;> rfl

theorem lookup_putMember_of_ne {key other : Text} (h : other ≠ key) (value : Json)
    (members : List (Text × Json)) :
    (putMember key value members).lookup other = members.lookup other := by
  induction members with
  | nil => simp [putMember, lookup_cons, h]
  | cons m rest ih =>
    obtain ⟨k, v⟩ := m
    simp only [putMember]
    split
    · next heq =>
      subst heq
      simp [lookup_cons, h]
    · simp only [lookup_cons, ih]

theorem lookup_filter_of_ne {key other : Text} (h : other ≠ key) (members : List (Text × Json)) :
    (members.filter fun m => m.1 != key).lookup other = members.lookup other := by
  induction members with
  | nil => rfl
  | cons m rest ih =>
    obtain ⟨k, v⟩ := m
    by_cases heq : k = key
    · subst heq
      simp [lookup_cons, h, ih]
    · simp [heq, lookup_cons, ih]

/-- A change under one key leaves what is held under the others. -/
theorem get?_withMember_of_ne {key other : Text} (h : other ≠ key) (value : Option Json)
    (v : Json) : (v.withMember key value).get? other = v.get? other := by
  cases v with
  | object members inherited root =>
    cases value with
    | none => simp only [withMember, Json.get?, lookup_filter_of_ne h]
    | some w => simp only [withMember, Json.get?, lookup_putMember_of_ne h]
  | _ => rfl

theorem lookup_filter_self (key : Text) (members : List (Text × Json)) :
    (members.filter fun m => m.1 != key).lookup key = none := by
  refine lookup_eq_none fun h => ?_
  obtain ⟨m, hm, rfl⟩ := List.mem_map.mp h
  simpa using (List.mem_filter.mp hm).2

/-- A plain object holds under a key what it was given there. -/
theorem get?_withMember_self {v : Json} (hv : v.Plain) (hobject : v.isObject = true) (key : Text)
    (value : Option Json) : (v.withMember key value).get? key = value := by
  cases hv with
  | object _ _ =>
    cases value with
    | none => rw [withMember, get?_object_nil, lookup_filter_self]
    | some w => rw [withMember, get?_object_nil, lookup_putMember]
  | _ => cases hobject

end Json

end SexpEditing
