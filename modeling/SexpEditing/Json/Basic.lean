import SexpEditing.Number.Binary64
import SexpEditing.Text.Basic

/-!
# JSON values

An object may rest on a base, which supplies the members that the object itself lacks, and the base
may rest on another one. The bases end in a root: in the one of all objects, in the one of all
lists, or in nothing. A base is given as a member under the base key. Where the bases end in
nothing, the key has no such meaning, and its member is one like any other. A list is a base whose
members are its items under their indexes, and their number.

## Main definitions

* `Json`: values
* `Json.get?`, `Json.entries`: the member of an object with a key, and all its own members
* `Json.setMember`: gives a member of an object its value
-/

namespace SexpEditing

/-- What the bases of an object end in. -/
inductive ObjectRoot
  /-- The root of all objects. -/
  | objects
  /-- The root of all lists. -/
  | lists
  | nothing
deriving DecidableEq, Repr

/-- A JSON value. An object has members of its own, and inherits those of its bases, the nearest
base first. -/
inductive Json
  | null
  | bool (value : Bool)
  | number (value : Decimal)
  | string (value : Text)
  | array (items : List Json)
  | object (members inherited : List (Text × Json)) (root : ObjectRoot)

namespace Json

/-- The object without members. -/
def emptyObject : Json := .object [] [] .objects

/-- Whether a value is an object. -/
def isObject : Json → Bool
  | .object .. => true
  | _ => false

/-- The member of an object with a key: its own one, or else the one of its nearest base. -/
def get? (key : Text) : Json → Option Json
  | .object members inherited _ => (members.lookup key).or (inherited.lookup key)
  | _ => none

/-- The own members of an object. -/
def entries : Json → List (Text × Json)
  | .object members .. => members
  | _ => []

/-- Members in which a key has a value, in place of an earlier value. -/
def putMember (key : Text) (value : Json) : List (Text × Json) → List (Text × Json)
  | [] => [(key, value)]
  | (k, v) :: rest => if k = key then (key, value) :: rest else (k, v) :: putMember key value rest

/-- The key under which an object names its base. -/
def baseKey : Text := .ofString "__proto__"

/-- The key under which a list gives the number of its items. -/
def lengthKey : Text := .ofString "length"

/-- The members of a list: its items under their indexes, and their number. -/
def listMembers (items : List Json) : List (Text × Json) :=
  items.zipIdx.map (fun (v, i) => (Text.ofInt i, v)) ++
    [(lengthKey, .number (.ofNat items.length))]

/-- Puts an object on a base. `null` takes all bases away, and other values are no bases. -/
def setBase (o base : Json) : Json :=
  match o, base with
  | .object members _ _, .object more inherited root => .object members (more ++ inherited) root
  | .object members _ _, .array items => .object members (listMembers items) .lists
  | .object members _ _, .null => .object members [] .nothing
  | o, _ => o

/-- Gives a member of an object its value; the last value given to a key counts. Under the base
key, an object with a root is put on a base. -/
def setMember (o : Json) (key : Text) (value : Json) : Json :=
  match o with
  | .object members inherited root =>
    if key = baseKey ∧ root ≠ .nothing then o.setBase value
    else .object (putMember key value members) inherited root
  | other => other

@[simp] theorem lookup_putMember (key : Text) (value : Json) (members : List (Text × Json)) :
    (putMember key value members).lookup key = some value := by
  induction members with
  | nil => simp [putMember]
  | cons m rest ih =>
    obtain ⟨k, v⟩ := m
    by_cases h : k = key
    · simp [putMember, h]
    · have : (key == k) = false := by simpa using fun h' => h h'.symm
      simp [putMember, h, List.lookup_cons, this, ih]

/-- An object without bases of its own looks up its own members. -/
@[simp] theorem get?_object_nil (key : Text) (members : List (Text × Json)) (root : ObjectRoot) :
    get? key (.object members [] root) = members.lookup key := by
  simp [get?]

end Json

end SexpEditing
