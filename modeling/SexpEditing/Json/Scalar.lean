import SexpEditing.Json.Basic
import SexpEditing.Number.Numeral

/-!
# Scalars

A value without parts is a scalar. Where a scalar is needed, a list counts as the text of its items
with commas between them, and an object as a fixed text. Scalars of different types are alike if
they stand for the same number.

## Main definitions

* `JsonScalar`, `Json.scalar?`: scalars, and the scalar that a value counts as
* `JsonScalar.text`, `JsonScalar.number?`: how a scalar is written, and the number it stands for
* `JsonScalar.alike`: whether two scalars are alike
-/

namespace SexpEditing

/-- A value without parts. -/
inductive JsonScalar
  | null
  | bool (value : Bool)
  | number (value : Decimal)
  | string (value : Text)
deriving DecidableEq, Repr

namespace JsonScalar

/-- How a scalar is written. -/
def text : JsonScalar → Text
  | .null => .ofString "null"
  | .bool b => .ofString (if b then "true" else "false")
  | .number n => .ofString n.render
  | .string t => t

/-- The number that a scalar stands for, if it does for any. -/
def number? : JsonScalar → Option Decimal
  | .null => some (.ofNat 0)
  | .bool b => some (.ofNat (if b then 1 else 0))
  | .number n => some n
  | .string t => Decimal.ofText? t

/-- Whether two scalars stand for the same number. -/
def sameNumber (a b : JsonScalar) : Bool :=
  match a.number?, b.number? with
  | some m, some n => m.sameNumber n
  | some _, none => false
  | none, _ => false

/-- Whether two scalars are alike. Only `null` is like `null`, and strings are alike if they are
equal; any other two scalars are alike if they stand for the same number. -/
def alike (a b : JsonScalar) : Bool :=
  match a, b with
  | .null, .null => true
  | .null, _ => false
  | _, .null => false
  | .string s, .string t => s == t
  | a, b => a.sameNumber b

/-- How a scalar is written as an item of a list: `null` leaves a gap. -/
def itemText : JsonScalar → Text
  | .null => []
  | a => a.text

/-- How a list of scalars is written. -/
def joined (items : List JsonScalar) : JsonScalar :=
  .string (List.intercalate [CodeUnit.comma] (items.map itemText))

end JsonScalar

namespace Json

/-- The length that a scalar stands for. -/
def scalarLength (a : JsonScalar) : Nat := ((a.number?.map Decimal.floor).getD 0)

/-- The scalar that a list counts as whose items are looked up by their indexes. Items that are
missing count as `null`. -/
def scalarOfItems? (find : Text → Option (Option JsonScalar)) : Option JsonScalar := do
  let length := scalarLength (← (find lengthKey).getD (some .null))
  let items ← (List.range length).mapM fun (i : Nat) => (find (Text.ofInt i)).getD (some .null)
  return JsonScalar.joined items

/-- The scalar that an object counts as whose members are looked up by their keys. There is none if
a member takes the place of the way in which the root writes objects. An object that rests on a list
is written as one, unless a member takes the place of that. -/
def scalarOfMembers? (find : Text → Option (Option JsonScalar)) (root : ObjectRoot) :
    Option JsonScalar :=
  let fixed : JsonScalar := .string (.ofString "[object Object]")
  if (find (.ofString "toString")).isSome then none
  else
    match root with
    | .objects => some fixed
    | .lists => if (find (.ofString "join")).isSome then some fixed else scalarOfItems? find
    | .nothing => none

mutual

/-- The scalar that a value counts as, if it does as any. -/
def scalar? : Json → Option JsonScalar
  | .null => some .null
  | .bool b => some (.bool b)
  | .number n => some (.number n)
  | .string t => some (.string t)
  | .array items => ((scalars items).mapM id).map JsonScalar.joined
  | .object members inherited root =>
    let own := memberScalars members
    let more := memberScalars inherited
    scalarOfMembers? (fun key => (own.lookup key).or (more.lookup key)) root

/-- The scalars that values count as. -/
def scalars : List Json → List (Option JsonScalar)
  | [] => []
  | v :: rest => scalar? v :: scalars rest

/-- The scalars that the values of members count as. -/
def memberScalars : List (Text × Json) → List (Text × Option JsonScalar)
  | [] => []
  | (key, v) :: rest => (key, scalar? v) :: memberScalars rest

end

end Json

end SexpEditing
