import SexpEditing.Token.Basic

/-!
# Matching delimiters

A closing delimiter matches the innermost opening delimiter that is still unclosed. One pass over
the tokens finds every match; a closing delimiter that meets no unclosed one stays unmatched, and so
does an opening delimiter that nothing closes.

## Main definitions

* `Matching`: the unclosed openers and the matches found so far
* `Matching.step`, `Matching.ofTokens`: one token, and all of them
* `Matching.unclosedAfter`: the openers that a run of tokens leaves unclosed
-/

namespace SexpEditing

/-- What is known of the delimiters of the tokens read so far. -/
structure Matching where
  /-- The indexes of the openers that are not closed yet, innermost first. -/
  unclosed : List Nat
  /-- For each token, the index of the delimiter that it matches. -/
  partners : Array (Option Nat)
deriving Repr

namespace Matching

/-- Nothing is matched among `size` tokens. -/
def empty (size : Nat) : Matching := ⟨[], Array.replicate size none⟩

/-- Reads the token with index `i`. -/
def step (m : Matching) (kind : TokenKind) (i : Nat) : Matching :=
  match kind, m.unclosed with
  | .opener, unclosed => { m with unclosed := i :: unclosed }
  | .closer, o :: outer =>
    ⟨outer, (m.partners.setIfInBounds o (some i)).setIfInBounds i (some o)⟩
  | _, _ => m

/-- Reads tokens whose first one has index `i`. -/
def run (m : Matching) (i : Nat) : List Token → Matching
  | [] => m
  | t :: rest => (m.step t.kind i).run (i + 1) rest

/-- The matches among some tokens. -/
def ofTokens (tokens : List Token) : Matching := (empty tokens.length).run 0 tokens

/-- The openers that are unclosed after some tokens, innermost first, when those of a stack were
unclosed before. -/
def unclosedAfter (stack : List Token) : List Token → List Token
  | [] => stack
  | t :: rest =>
    match t.kind with
    | .opener => unclosedAfter (t :: stack) rest
    | .closer => unclosedAfter stack.tail rest
    | _ => unclosedAfter stack rest

@[simp] theorem run_nil (m : Matching) (i : Nat) : m.run i [] = m := rfl

@[simp] theorem run_cons (m : Matching) (i : Nat) (t : Token) (rest : List Token) :
    m.run i (t :: rest) = (m.step t.kind i).run (i + 1) rest := rfl

@[simp] theorem size_partners_step (m : Matching) (kind : TokenKind) (i : Nat) :
    (m.step kind i).partners.size = m.partners.size := by
  unfold step
  split <;> simp

@[simp] theorem size_partners_run (m : Matching) (i : Nat) (ts : List Token) :
    (m.run i ts).partners.size = m.partners.size := by
  induction ts generalizing m i with
  | nil => rfl
  | cons t rest ih => simp [ih]

@[simp] theorem size_partners_ofTokens (ts : List Token) :
    (ofTokens ts).partners.size = ts.length := by
  simp [ofTokens, empty]

end Matching

end SexpEditing
