import SexpEditing.Expr.Basic

/-!
# Reading items with one item of lookahead

A lookahead yields the items of a source one by one. It can look at the next item without using it
up: an item that was looked at is held back and comes first when the next one is wanted.

## Main definitions

* `Lookahead.next?`, `Lookahead.peek?`, `Lookahead.nextIf?`: take, look, take if it fits
* `Lookahead.atEnd`: whether all items were taken
* `Expr.Reader`: a lookahead on expressions, with `nextAtom?`, `nextString?`, `nextName?` and
  `nextList?`
-/

namespace SexpEditing

/-- A source of items. It can only go forward, and once its end was found, it is not asked again. -/
structure Lookahead (α : Type) where
  /-- What the source has not given yet. -/
  source : List α
  /-- Whether its end was found. -/
  ended : Bool
  /-- The items that were taken from it and held back, the last one first. -/
  held : List α
deriving Repr

namespace Lookahead

variable {α : Type}

/-- No item was taken yet. -/
def ofList (items : List α) : Lookahead α := ⟨items, false, []⟩

/-- Takes the next item. -/
def next? (s : Lookahead α) : Option α × Lookahead α :=
  match s.held, s.ended, s.source with
  | x :: held, _, _ => (some x, { s with held })
  | [], true, _ => (none, s)
  | [], false, x :: source => (some x, { s with source })
  | [], false, [] => (none, { s with ended := true })

/-- Looks at the next item, and answers it if it fits. -/
def peek? (s : Lookahead α) (fits : α → Bool) : Option α × Lookahead α :=
  match s.next? with
  | (none, s) => (none, s)
  | (some x, s) => (if fits x then some x else none, { s with held := x :: s.held })

/-- Takes the next item if it fits. -/
def nextIf? (s : Lookahead α) (fits : α → Bool) : Option α × Lookahead α :=
  match s.peek? fits with
  | (none, s) => (none, s)
  | (some x, s) => (some x, s.next?.2)

/-- Whether no item is left. -/
def atEnd (s : Lookahead α) : Bool × Lookahead α :=
  match s.peek? fun _ => true with
  | (answer, s) => (answer.isNone, s)

/-- The items that are left, in order. -/
def upcoming (s : Lookahead α) : List α := s.held ++ if s.ended then [] else s.source

@[simp] theorem upcoming_ofList (items : List α) : (ofList items).upcoming = items := rfl

@[simp] theorem next?_fst (s : Lookahead α) : s.next?.1 = s.upcoming.head? := by
  rcases s with ⟨_ | _, _ | _, _ | _⟩ <;> rfl

@[simp] theorem upcoming_next? (s : Lookahead α) : s.next?.2.upcoming = s.upcoming.tail := by
  rcases s with ⟨_ | _, _ | _, _ | _⟩ <;> rfl

@[simp] theorem held_next? (s : Lookahead α) : s.next?.2.held = s.held.tail := by
  rcases s with ⟨_ | _, _ | _, _ | _⟩ <;> rfl

end Lookahead

namespace Expr

/-- Whether an expression is an atom. -/
def isAtom : Expr → Bool
  | .atom _ => true
  | _ => false

/-- Whether an expression is a string. -/
def isString : Expr → Bool
  | .string _ => true
  | _ => false

/-- Whether an expression is a list. -/
def isList : Expr → Bool
  | .list .. => true
  | _ => false

/-- The text of an atom, or the contents of a string. -/
def name? : Expr → Option Text
  | .atom t => some t.text
  | .string t => some (stringValue t.text)
  | _ => none

/-- A reader of expressions. -/
abbrev Reader := Lookahead Expr

namespace Reader

/-- Takes the next expression if it is an atom. -/
def nextAtom? (r : Reader) : Option Expr × Reader := Lookahead.nextIf? r isAtom

/-- Takes the next expression if it is a string. -/
def nextString? (r : Reader) : Option Expr × Reader := Lookahead.nextIf? r isString

/-- Takes the next expression if it is a list. -/
def nextList? (r : Reader) : Option Expr × Reader := Lookahead.nextIf? r isList

/-- Takes the next expression if it is an atom or a string, and answers the name that it holds. -/
def nextName? (r : Reader) : Option Text × Reader :=
  match r.nextAtom? with
  | (some e, r) => (e.name?, r)
  | (none, r) =>
    match r.nextString? with
    | (some e, r) => (e.name?, r)
    | (none, r) => (none, r)

end Reader

end Expr

end SexpEditing
