import SexpEditing.Expr.Parser
import SexpEditing.Expr.Reader

/-!
# Declaration records

A declaration file is a sequence of lists whose first item, an atom or a string, names a function.

## Main definitions

* `Expr.recordName?`: the name that a record declares
* `Declarations.ofText`: the names that a file declares, and the number of malformed records
-/

namespace SexpEditing

/-- The name that a record declares: the first item of a closed list, if it is not empty. -/
def Expr.recordName? : Expr → Option Text
  | .list _ items (some _) =>
    match (Expr.Reader.nextName? (Lookahead.ofList items)).1 with
    | some [] => none
    | name => name
  | _ => none

/-- What a declaration file holds. -/
structure Declarations where
  /-- The declared names, in the order of the file; a name may stand there twice. -/
  names : List Text
  /-- The number of top-level expressions that are no usable records. -/
  skipped : Nat
deriving DecidableEq, Repr

namespace Declarations

/-- Whether a name is wanted: it begins with one of some prefixes, or there are none. -/
def wanted (starts : List Text) (name : Text) : Bool :=
  starts.isEmpty || starts.any fun start => start.isPrefixOf name

/-- The declarations of some top-level expressions. -/
def ofExprs (exprs : List Expr) (starts : List Text) : Declarations where
  names := (exprs.filterMap Expr.recordName?).filter (wanted starts)
  skipped := exprs.countP fun e => e.recordName?.isNone

/-- The declarations of a file. If there are prefixes, only names that begin with one of them are
kept. -/
def ofText (t : Text) (starts : List Text) : Except ExprError Declarations := do
  return ofExprs (← Expr.ofText t) starts

end Declarations

end SexpEditing
