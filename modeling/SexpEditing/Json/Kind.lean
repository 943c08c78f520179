import SexpEditing.Json.Scalar

/-!
# Kinds of objects

Two objects with the same members differ if they are of different kinds. An object names its kind
in a member, which it may inherit; without such a member, it has the kind of its root. An object
that rests on nothing and names no kind has none. A kind may be named by any value. Kinds that are
named by scalars are alike if the scalars are, and such a kind is also like one that counts as a
scalar that is alike.

## Main definitions

* `ObjectKind`, `Json.kind?`: kinds, and the kind of an object
* `ObjectKind.agree`: whether two objects may be equal, as far as their kinds go
-/

namespace SexpEditing

/-- What tells two objects apart besides their members. -/
inductive ObjectKind
  /-- The kind that objects have from their root. -/
  | objects
  /-- The kind that objects have from the root of all lists. -/
  | lists
  /-- A kind that a scalar names. -/
  | scalar (name : JsonScalar)
  /-- A kind that a list or an object names, and the scalar that it counts as. -/
  | single (name : Option JsonScalar)
deriving DecidableEq, Repr

namespace ObjectKind

/-- How the kind from a root is written. -/
def rootText (name : String) : JsonScalar :=
  .string (.ofString ("function " ++ name ++ "() \x7b [native code] \x7d"))

/-- The scalar that a kind counts as. -/
def scalar? : ObjectKind → Option JsonScalar
  | .objects => some (rootText "Object")
  | .lists => some (rootText "Array")
  | .scalar name => some name
  | .single name => name

/-- Whether two kinds are alike. A kind that a list or an object names is like no other such
kind. -/
def isLike : ObjectKind → ObjectKind → Bool
  | .objects, .objects | .lists, .lists => true
  | .scalar name, l => l.scalar?.any name.alike
  | k, .scalar name => k.scalar?.any fun other => other.alike name
  | _, _ => false

/-- Whether two objects may be equal, as far as their kinds go. An object without a kind may be
equal to any. -/
def agree : Option ObjectKind → Option ObjectKind → Bool
  | none, _ => true
  | some _, none => true
  | some k, some l => k.isLike l

/-- The kind that an object has from its root. -/
def ofRoot? : ObjectRoot → Option ObjectKind
  | .objects => some .objects
  | .lists => some .lists
  | .nothing => none

/-- The kind that a value names. -/
def named (v : Json) : ObjectKind :=
  match v with
  | .array _ | .object .. => .single v.scalar?
  | .null => .scalar .null
  | .bool b => .scalar (.bool b)
  | .number n => .scalar (.number n)
  | .string t => .scalar (.string t)

end ObjectKind

namespace Json

/-- The key under which an object names its kind. -/
def kindKey : Text := .ofString "constructor"

/-- The kind of an object: the one that a member names, or else the one of its root. -/
def kind? : Json → Option ObjectKind
  | .object members inherited root =>
    ((get? kindKey (.object members inherited root)).map ObjectKind.named).or
      (ObjectKind.ofRoot? root)
  | _ => none

end Json

end SexpEditing
