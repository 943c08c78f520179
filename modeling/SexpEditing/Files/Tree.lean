import SexpEditing.Files.Path
import SexpEditing.Files.Task
import SexpEditing.Text.Utf8

/-!
# Trees of files

A tree of directories and files on a disk. A path leads from the root of the tree to one of its
nodes.

## Main definitions

* `FileNode`: a file with its bytes, or a directory
* `FileNode.add`: puts a node at a path
* `FileNode.listing`, `FileNode.contents`: the entries of a directory, and the text of a file
-/

namespace SexpEditing

/-- A file with its bytes, or a directory with its entries. -/
inductive FileNode
  | file (bytes : List UInt8)
  | directory (entries : List (Text × FileNode))

/-- Why a path cannot be read. -/
inductive AccessError
  /-- Nothing is there. -/
  | missing
  /-- A file stands where a directory is needed. -/
  | notDirectory
  /-- A directory stands where a file is needed. -/
  | isDirectory
deriving DecidableEq, Repr

/-- The code under which an error is reported. -/
def AccessError.code : AccessError → String
  | .missing => "ENOENT"
  | .notDirectory => "ENOTDIR"
  | .isDirectory => "EISDIR"

namespace FileNode

/-- A directory without entries. -/
def empty : FileNode := .directory []

/-- Entries in which a name stands for a node, in place of an earlier one. -/
def putEntry (name : Text) (node : FileNode) : List (Text × FileNode) → List (Text × FileNode)
  | [] => [(name, node)]
  | (n, old) :: rest =>
    if n = name then (name, node) :: rest else (n, old) :: putEntry name node rest

/-- The entries of a directory; a file has none. -/
def entries : FileNode → List (Text × FileNode)
  | .directory entries => entries
  | .file _ => []

/-- Puts a node at the end of a list of names. Missing directories on the way are made, and a
directory that is there already stays. -/
def add (node : FileNode) : (names : List Text) → (root : FileNode) → FileNode
  | [], root =>
    match node, root with
    | .directory _, .directory entries => .directory entries
    | node, _ => node
  | name :: rest, root =>
    let below := (root.entries.lookup name).getD empty
    .directory (putEntry name (add node rest below) root.entries)

/-- The node at the end of a list of names. -/
def find : (names : List Text) → (root : FileNode) → Except AccessError FileNode
  | [], root => .ok root
  | _ :: _, .file _ => .error .notDirectory
  | name :: rest, .directory entries =>
    match entries.lookup name with
    | some node => find rest node
    | none => .error .missing

/-- The names on a path from the root. -/
def namesOf (path : Text) : List Text := Path.normalSegments true path

/-- Whether a path can only lead to a directory, since it ends in a slash. -/
def endsInSlash (path : Text) : Bool := path.getLast? == some CodeUnit.slash

/-- The node at a path. -/
def at? (root : FileNode) (path : Text) : Except AccessError FileNode := do
  match ← find (namesOf path) root with
  | .file bytes => if endsInSlash path then .error .notDirectory else .ok (.file bytes)
  | node => .ok node

/-- Puts a node at a path. -/
def put (root : FileNode) (path : Text) (node : FileNode) : FileNode :=
  add node (namesOf path) root

/-- The entries of the directory at a path, by name. -/
def listing (root : FileNode) (path : Text) : Except AccessError (List DirectoryEntry) := do
  match ← root.at? path with
  | .file _ => .error .notDirectory
  | .directory entries =>
    let listed := entries.map fun (name, node) =>
      DirectoryEntry.mk name (match node with | .directory _ => true | .file _ => false)
    return listed.mergeSort fun a b => !b.name.precedes a.name

/-- The text of the file at a path. -/
def contents (root : FileNode) (path : Text) : Except AccessError Text := do
  match ← root.at? path with
  | .file bytes => return Utf8.decodeFile bytes
  | .directory _ => .error .isDirectory

end FileNode

end SexpEditing
