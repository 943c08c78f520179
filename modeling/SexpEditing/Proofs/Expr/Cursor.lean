import SexpEditing.Expr.Reader

/-!
# Reading as with a cursor

A lookahead keeps its place in three parts: a source that only goes forward, a mark that the end of
the source was found, and the items that were taken from it and held back. To its reader it is a
cursor on the list of items, which looking at an item does not move.

## Main definitions

* `Lookahead.Request`, `Lookahead.Answer`: what a lookahead is asked for, and what it answers
* `Cursor`: a place in a list of items, with the answers that it gives
* `respondAll`: one request after the other
* `Lookahead.Shows`: a lookahead yields what is behind a cursor, and holds back at most one item
* `Lookahead.taken`: the items that requests took away

## Main results

* `Lookahead.Shows.request`: one request keeps a lookahead and a cursor together
* `Lookahead.Shows.requests`: so do all
* `Lookahead.Shows.nextName?`: a name is taken exactly from an atom or a string
* `Lookahead.reads_like_cursor`: a lookahead on a list is a cursor at its start
-/

namespace SexpEditing

variable {α : Type}

namespace Lookahead

/-- What a lookahead can be asked for. Without a condition, every item fits. -/
inductive Request (α : Type)
  /-- To look at the next item, and to answer it if it fits. -/
  | peek (fits : Option (α → Bool))
  /-- To take the next item. -/
  | next
  /-- To take the next item if it fits. -/
  | nextIf (fits : Option (α → Bool))
  /-- To tell whether no item is left. -/
  | atEnd

/-- What is answered to a request. -/
inductive Answer (α : Type)
  /-- An item, or that there is none. -/
  | item (found : Option α)
  /-- Whether no item is left. -/
  | verdict (atEnd : Bool)
deriving DecidableEq, Repr

/-- The condition that a request means. -/
def condition (fits : Option (α → Bool)) : α → Bool := fits.getD fun _ => true

/-- The answer of a lookahead to a request, and the lookahead after it. -/
def respond (s : Lookahead α) : Request α → Answer α × Lookahead α
  | .peek fits => Prod.map .item id (s.peek? (condition fits))
  | .next => Prod.map .item id s.next?
  | .nextIf fits => Prod.map .item id (s.nextIf? (condition fits))
  | .atEnd => Prod.map .verdict id s.atEnd

/-- The item that a request took away, by its answer. -/
def Request.taken : Request α → Answer α → Option α
  | .next, .item found | .nextIf _, .item found => found
  | _, _ => none

/-- The items that requests took away, in order. -/
def taken (requests : List (Request α)) (answers : List (Answer α)) : List α :=
  (requests.zip answers).filterMap fun p => p.1.taken p.2

end Lookahead

open Lookahead

/-- The answers to some requests, one after the other, and the state after the last. -/
def respondAll {σ : Type} (respond : σ → Request α → Answer α × σ) (s : σ) :
    List (Request α) → List (Answer α) × σ
  | [] => ([], s)
  | r :: rest =>
    let (answer, s) := respond s r
    let (answers, s) := respondAll respond s rest
    (answer :: answers, s)

@[simp] theorem respondAll_nil {σ : Type} (respond : σ → Request α → Answer α × σ) (s : σ) :
    respondAll respond s [] = ([], s) := rfl

@[simp] theorem respondAll_cons {σ : Type} (respond : σ → Request α → Answer α × σ) (s : σ)
    (r : Request α) (rest : List (Request α)) :
    respondAll respond s (r :: rest) =
      ((respond s r).1 :: (respondAll respond (respond s r).2 rest).1,
        (respondAll respond (respond s r).2 rest).2) := rfl

/-- A place in a list: the number of items that are before it. -/
structure Cursor (α : Type) where
  items : List α
  position : Nat
deriving DecidableEq, Repr

namespace Cursor

/-- Before the first item. -/
def start (items : List α) : Cursor α := ⟨items, 0⟩

/-- The item under a cursor. -/
def current (c : Cursor α) : Option α := c.items[c.position]?

/-- A cursor that has moved past the item under it. At the end it stays. -/
def advance (c : Cursor α) : Cursor α :=
  if c.position < c.items.length then { c with position := c.position + 1 } else c

/-- The answer of a cursor to a request, and the cursor after it. It moves past the items that it
gives away, and past no others. -/
def respond (c : Cursor α) : Request α → Answer α × Cursor α
  | .peek fits => (.item (c.current.filter (condition fits)), c)
  | .next => (.item c.current, c.advance)
  | .nextIf fits =>
    let found := c.current.filter (condition fits)
    (.item found, if found.isSome then c.advance else c)
  | .atEnd => (.verdict (c.items.length ≤ c.position), c)

theorem drop_advance (c : Cursor α) :
    c.advance.items.drop c.advance.position = (c.items.drop c.position).tail := by
  rw [advance]
  split
  · exact List.tail_drop.symm
  · next h => rw [List.drop_eq_nil_of_le (Nat.le_of_not_lt h), List.tail_nil]

@[simp] theorem items_advance (c : Cursor α) : c.advance.items = c.items := by
  rw [advance]
  split <;> rfl

/-- The items are not changed. -/
theorem items_respond (c : Cursor α) (r : Request α) : (c.respond r).2.items = c.items := by
  cases r with
  | peek => rfl
  | next => exact c.items_advance
  | nextIf =>
    rw [respond]
    split
    · exact c.items_advance
    · rfl
  | atEnd => rfl

theorem items_respondAll (c : Cursor α) (requests : List (Request α)) :
    (respondAll respond c requests).2.items = c.items := by
  induction requests generalizing c with
  | nil => rfl
  | cons r rest ih => rw [respondAll_cons, ih, items_respond]

end Cursor

namespace Lookahead

/-! ### One operation

An item that was looked at is held back and comes first, so what is left stays the same. -/

/-- The item that is taken next stood first, and the rest is left. -/
theorem toList_append_upcoming_next? (s : Lookahead α) :
    s.next?.1.toList ++ s.next?.2.upcoming = s.upcoming := by
  rw [next?_fst, upcoming_next?]
  cases s.upcoming <;> rfl

theorem peek?_eq (s : Lookahead α) (fits : α → Bool) :
    s.peek? fits =
      (s.next?.1.filter fits, { s.next?.2 with held := s.next?.1.toList ++ s.next?.2.held }) := by
  rw [peek?]
  rcases s.next? with ⟨_ | x, s'⟩
  · rfl
  · cases hx : fits x <;> simp [Option.filter, hx]

@[simp] theorem peek?_fst (s : Lookahead α) (fits : α → Bool) :
    (s.peek? fits).1 = s.upcoming.head?.filter fits := by
  rw [peek?_eq, next?_fst]

@[simp] theorem upcoming_peek? (s : Lookahead α) (fits : α → Bool) :
    (s.peek? fits).2.upcoming = s.upcoming := by
  have hback : (s.peek? fits).2.upcoming = s.next?.1.toList ++ s.next?.2.upcoming := by
    rw [peek?_eq]
    exact List.append_assoc ..
  rw [hback, toList_append_upcoming_next?]

@[simp] theorem held_peek? (s : Lookahead α) (fits : α → Bool) :
    (s.peek? fits).2.held = s.upcoming.head?.toList ++ s.held.tail := by
  rw [peek?_eq, next?_fst, held_next?]

theorem nextIf?_eq (s : Lookahead α) (fits : α → Bool) :
    s.nextIf? fits =
      ((s.peek? fits).1,
        if (s.peek? fits).1.isSome then (s.peek? fits).2.next?.2 else (s.peek? fits).2) := by
  rw [nextIf?]
  rcases s.peek? fits with ⟨_ | x, s'⟩ <;> rfl

theorem atEnd_eq (s : Lookahead α) :
    s.atEnd = ((s.peek? fun _ => true).1.isNone, (s.peek? fun _ => true).2) := rfl

/-! ### A lookahead beside a cursor -/

/-- A lookahead shows what is behind a cursor: it yields the items from the cursor on, and holds
back no more than the first of them. -/
structure Shows (s : Lookahead α) (c : Cursor α) : Prop where
  upcoming_eq : s.upcoming = c.items.drop c.position
  held_le : s.held.length ≤ 1

theorem shows_ofList (items : List α) : (ofList items).Shows (.start items) := ⟨rfl, Nat.zero_le 1⟩

section Shows

variable {s : Lookahead α} {c : Cursor α} (h : s.Shows c)
include h

theorem Shows.head?_upcoming : s.upcoming.head? = c.current := by
  rw [h.upcoming_eq, List.head?_drop, Cursor.current]

theorem Shows.tail_held : s.held.tail = [] := by
  rw [← List.length_eq_zero_iff, List.length_tail]
  have hle : s.held.length ≤ 1 := h.held_le
  omega

theorem Shows.next? : s.next?.1 = c.current ∧ s.next?.2.Shows c.advance := by
  refine ⟨by rw [next?_fst, h.head?_upcoming], ?_, ?_⟩
  · rw [upcoming_next?, h.upcoming_eq, c.drop_advance]
  · rw [held_next?, h.tail_held]
    exact Nat.zero_le 1

theorem Shows.peek? (fits : α → Bool) :
    (s.peek? fits).1 = c.current.filter fits ∧ (s.peek? fits).2.Shows c := by
  refine ⟨by rw [peek?_fst, h.head?_upcoming], ?_, ?_⟩
  · rw [upcoming_peek?, h.upcoming_eq]
  · -- what was held back is taken before anything else is held back
    rw [held_peek?, h.tail_held, List.append_nil]
    exact Option.length_toList_le

theorem Shows.nextIf? (fits : α → Bool) :
    (s.nextIf? fits).1 = c.current.filter fits ∧
      (s.nextIf? fits).2.Shows (if (c.current.filter fits).isSome then c.advance else c) := by
  obtain ⟨hanswer, hshows⟩ := h.peek? fits
  rw [nextIf?_eq, hanswer]
  refine ⟨rfl, ?_⟩
  split
  · exact hshows.next?.2
  · exact hshows

theorem Shows.atEnd :
    s.atEnd.1 = decide (c.items.length ≤ c.position) ∧ s.atEnd.2.Shows c := by
  obtain ⟨hanswer, hshows⟩ := h.peek? fun _ => true
  rw [atEnd_eq]
  refine ⟨?_, hshows⟩
  have hall : (c.current.filter fun _ => true) = c.current := by
    cases c.current <;> rfl
  rw [hall] at hanswer
  simp only [hanswer, Cursor.current]
  rw [Bool.eq_iff_iff, decide_eq_true_iff, Option.isNone_iff_eq_none, List.getElem?_eq_none_iff]

/-- **One request** is answered in the same way by a lookahead and by the cursor that it shows, and
it shows the cursor still. -/
theorem Shows.request (r : Request α) :
    (s.respond r).1 = (c.respond r).1 ∧ (s.respond r).2.Shows (c.respond r).2 := by
  cases r with
  | peek fits =>
    obtain ⟨hanswer, hshows⟩ := h.peek? (condition fits)
    exact ⟨congrArg Answer.item hanswer, hshows⟩
  | next =>
    obtain ⟨hanswer, hshows⟩ := h.next?
    exact ⟨congrArg Answer.item hanswer, hshows⟩
  | nextIf fits =>
    obtain ⟨hanswer, hshows⟩ := h.nextIf? (condition fits)
    exact ⟨congrArg Answer.item hanswer, hshows⟩
  | atEnd =>
    obtain ⟨hanswer, hshows⟩ := h.atEnd
    exact ⟨congrArg Answer.verdict hanswer, hshows⟩

end Shows

/-- **All requests** are answered in the same way. -/
theorem Shows.requests {s : Lookahead α} {c : Cursor α} (h : s.Shows c)
    (requests : List (Request α)) :
    (respondAll respond s requests).1 = (respondAll Cursor.respond c requests).1 ∧
      (respondAll respond s requests).2.Shows (respondAll Cursor.respond c requests).2 := by
  induction requests generalizing s c with
  | nil => exact ⟨rfl, h⟩
  | cons r rest ih =>
    obtain ⟨hanswer, hshows⟩ := h.request r
    obtain ⟨hanswers, hend⟩ := ih hshows
    rw [respondAll_cons, respondAll_cons, hanswer, hanswers]
    exact ⟨rfl, hend⟩

/-! ### What was taken -/

/-- What one request took away stood first, and the rest is left. -/
theorem taken_append_upcoming_respond (s : Lookahead α) (r : Request α) :
    (r.taken (s.respond r).1).toList ++ (s.respond r).2.upcoming = s.upcoming := by
  cases r with
  | peek fits => exact s.upcoming_peek? (condition fits)
  | next => exact s.toList_append_upcoming_next?
  | nextIf fits =>
    have hlook := s.upcoming_peek? (condition fits)
    change (s.nextIf? (condition fits)).1.toList ++ (s.nextIf? (condition fits)).2.upcoming = _
    rw [nextIf?_eq]
    cases hfound : (s.peek? (condition fits)).1 with
    | none => exact hlook
    | some x =>
      -- the item that fits is the first of those that are left
      have hhead : s.upcoming.head? = some x := by
        rw [peek?_fst, Option.filter_eq_some_iff] at hfound
        exact hfound.1
      obtain ⟨rest, hrest⟩ := List.head?_eq_some_iff.mp hhead
      change [x] ++ (s.peek? (condition fits)).2.next?.2.upcoming = s.upcoming
      rw [upcoming_next?, hlook, hrest]
      rfl
  | atEnd => exact s.upcoming_peek? fun _ => true

theorem taken_cons (r : Request α) (requests : List (Request α)) (answer : Answer α)
    (answers : List (Answer α)) :
    taken (r :: requests) (answer :: answers) =
      (r.taken answer).toList ++ taken requests answers := by
  rw [taken, List.zip_cons_cons, List.filterMap_cons]
  cases r.taken answer <;> rfl

/-- What all requests took away stood first, and the rest is left. -/
theorem taken_append_upcoming (s : Lookahead α) (requests : List (Request α)) :
    taken requests (respondAll respond s requests).1 ++
      (respondAll respond s requests).2.upcoming = s.upcoming := by
  induction requests generalizing s with
  | nil => rfl
  | cons r rest ih =>
    rw [respondAll_cons, taken_cons, List.append_assoc, ih, taken_append_upcoming_respond]

/-! ### Names -/

theorem nextName?_eq (r : Expr.Reader) :
    r.nextName? =
      if r.nextAtom?.1.isSome then (r.nextAtom?.1.bind Expr.name?, r.nextAtom?.2)
      else (r.nextAtom?.2.nextString?.1.bind Expr.name?, r.nextAtom?.2.nextString?.2) := by
  rw [Expr.Reader.nextName?]
  rcases r.nextAtom? with ⟨_ | e, r'⟩
  · dsimp only
    rcases Expr.Reader.nextString? r' with ⟨_ | e, r''⟩ <;> rfl
  · rfl

/-- **A name** is taken exactly from an atom or a string. -/
theorem Shows.nextName? {r : Expr.Reader} {c : Cursor Expr} (h : r.Shows c) :
    r.nextName?.1 = c.current.bind Expr.name? ∧
      r.nextName?.2.Shows
        (if c.current.any fun e => e.isAtom || e.isString then c.advance else c) := by
  obtain ⟨hatom, hafter⟩ : r.nextAtom?.1 = c.current.filter Expr.isAtom ∧
      r.nextAtom?.2.Shows (if (c.current.filter Expr.isAtom).isSome then c.advance else c) :=
    h.nextIf? Expr.isAtom
  have hsecond (hkept : r.nextAtom?.2.Shows c) :
      r.nextAtom?.2.nextString?.1 = c.current.filter Expr.isString ∧
        r.nextAtom?.2.nextString?.2.Shows
          (if (c.current.filter Expr.isString).isSome then c.advance else c) :=
    hkept.nextIf? Expr.isString
  rw [nextName?_eq, hatom]
  cases hcurrent : c.current with
  | none =>
    rw [hcurrent] at hafter hsecond
    obtain ⟨hstring, hend⟩ := hsecond hafter
    exact ⟨congrArg (fun found => found.bind Expr.name?) hstring, hend⟩
  | some e =>
    rw [hcurrent] at hafter hsecond
    cases e with
    | atom => exact ⟨rfl, hafter⟩
    | string | list | quoted | stray =>
      -- it was left where it was, so the second request meets it again
      obtain ⟨hstring, hend⟩ := hsecond hafter
      exact ⟨congrArg (fun found => found.bind Expr.name?) hstring, hend⟩

/-- **A lookahead reads like a cursor.** Whatever is asked of a lookahead on a list, and in what
order, the answers are those of a cursor that starts at the first item. Never more than one item is
held back. The items that were taken are those before the cursor, and those from it on are left: each
is given away once, and in order. Wherever a reader of expressions has come to, it answers the name
that the next one holds and takes it if it is an atom or a string; otherwise it leaves it. -/
theorem reads_like_cursor (items : List α) (requests : List (Request α))
    (exprs : List Expr) (earlier : List (Request Expr)) :
    (let run := respondAll respond (ofList items) requests
      let cursor := respondAll Cursor.respond (.start items) requests
      run.1 = cursor.1 ∧ run.2.held.length ≤ 1 ∧
        taken requests run.1 = items.take cursor.2.position ∧
        run.2.upcoming = items.drop cursor.2.position) ∧
    (let r : Expr.Reader := (respondAll respond (ofList exprs) earlier).2
      let c := (respondAll Cursor.respond (.start exprs) earlier).2
      r.nextName?.1 = c.current.bind Expr.name? ∧
        r.nextName?.2.Shows
          (if c.current.any fun e => e.isAtom || e.isString then c.advance else c)) := by
  have h := (shows_ofList items).requests requests
  have hitems : (respondAll Cursor.respond (.start items) requests).2.items = items :=
    Cursor.items_respondAll _ _
  have hupcoming := h.2.upcoming_eq
  rw [hitems] at hupcoming
  refine ⟨⟨h.1, h.2.held_le, ?_, hupcoming⟩, ((shows_ofList exprs).requests earlier).2.nextName?⟩
  -- what was taken and what is left make up the list
  have htaken := taken_append_upcoming (ofList items) requests
  rw [hupcoming, upcoming_ofList] at htaken
  exact List.append_cancel_right (htaken.trans (List.take_append_drop _ _).symm)

end Lookahead

end SexpEditing
