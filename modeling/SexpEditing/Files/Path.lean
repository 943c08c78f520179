import SexpEditing.Text.Basic

/-!
# Paths

Names of files are separated by slashes. Paths are normalised by their text alone: repeated slashes
and `.` are dropped, and `..` cancels the name before it.

## Main definitions

* `Path.normalize`, `Path.join`: a normal path, and the path of a name in a directory
* `Path.extension`: the ending of a name from its last dot on
-/

namespace SexpEditing.Path

open CodeUnit

/-- The parts between the slashes of a path. -/
def segments : Text → List Text
  | [] => [[]]
  | slash :: rest => [] :: segments rest
  | c :: rest =>
    match segments rest with
    | [] => [[c]]
    | s :: more => (c :: s) :: more

/-- A path from its parts. -/
def ofSegments : List Text → Text
  | [] => []
  | [s] => s
  | s :: rest => s ++ slash :: ofSegments rest

/-- Adds a part to normal ones, given from the last to the first. Above the root of an absolute
path there is nothing; above the start of a relative one, `..` remains. -/
def addSegment (absolute : Bool) (stack : List Text) (s : Text) : List Text :=
  if s = [] ∨ s = [fullStop] then stack
  else if s = [fullStop, fullStop] then
    match stack with
    | top :: below => if top = s then s :: stack else below
    | [] => if absolute then [] else [s]
  else s :: stack

/-- The normal parts of a path. -/
def normalSegments (absolute : Bool) (p : Text) : List Text :=
  ((segments p).foldl (addSegment absolute) []).reverse

/-- A path in normal form. A slash at the end is kept, and nothing becomes a single dot. -/
def normalize (p : Text) : Text :=
  let absolute := p.head? == some slash
  let trailing := p.length > 1 && p.getLast? == some slash
  match normalSegments absolute p with
  | [] => if absolute then [slash] else if trailing then [fullStop, slash] else [fullStop]
  | names =>
    (if absolute then [slash] else []) ++ ofSegments names ++ (if trailing then [slash] else [])

/-- The path of a name in a directory, in normal form. Empty parts are dropped. -/
def join (dir name : Text) : Text :=
  normalize (ofSegments ([dir, name].filter fun part => !part.isEmpty))

/-- The last part of a path, slashes at its end apart. -/
def lastName (p : Text) : Text :=
  let trimmed := p.reverse.dropWhile (· == slash)
  (trimmed.takeWhile (· != slash)).reverse

/-- The ending of the last part of a path, from its last dot on. There is none if the part has no
dot, if its only dot comes first, or if it is `..`. -/
def extension (p : Text) : Text :=
  let name := lastName p
  if name = [fullStop, fullStop] then []
  else
    let tail := (name.reverse.takeWhile (· != fullStop)).reverse
    let stem := name.length - tail.length - 1
    if stem = 0 ∨ tail.length = name.length then [] else fullStop :: tail

end SexpEditing.Path
