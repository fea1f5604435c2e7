import Postmortem.Image
import Postmortem.Path

/-!
# File trees

The files below a working directory. A path is resolved name by name from that directory: a name
has to be a directory for the path to go on below it, and nothing above the directory or on an
absolute path is part of the tree.

* `FileTree.read?` gives the bytes of a file, `FileTree.list` the names in a directory.
* `FileTree.write` and `FileTree.remove` change files; what cannot be done leaves the tree as it is.
-/

namespace Postmortem

inductive Node where
  | file (bytes : Bytes)
  | directory
  deriving DecidableEq, Repr

structure FileTree where
  /-- The entries by their place: the names that lead to them. -/
  entries : List (List String × Node) := []

namespace FileTree

def node? (t : FileTree) (place : List String) : Option Node :=
  if place.isEmpty then some .directory else t.entries.lookup place

/-- One name further from `place`, which has to be a directory. -/
def descend (t : FileTree) (place : List String) (name : String) : Option (List String) :=
  match t.node? place with
  | some .directory =>
    if name = "" ∨ name = "." then some place
    else if name = ".." then
      if place.isEmpty then none else some place.dropLast
    else if (t.node? (place ++ [name])).isSome then some (place ++ [name])
    else none
  | _ => none

def names (p : Path) : List String := (p.toList.splitOn '/').map String.ofList

/-- The place a path leads to. The empty path leads nowhere. -/
def resolve? (t : FileTree) (p : Path) : Option (List String) :=
  if p.isEmpty || p.startsWith "/" then none else (names p).foldlM t.descend []

def read? (t : FileTree) (p : Path) : Option Bytes := do
  match ← t.node? (← t.resolve? p) with
  | .file bytes => some bytes
  | .directory => none

/-- The names in a directory, in no particular order; none for what is no directory. -/
def list (t : FileTree) (p : Path) : List String :=
  match t.resolve? p with
  | some place =>
    if t.node? place = some .directory then
      t.entries.filterMap fun e =>
        if e.1.dropLast = place ∧ e.1 ≠ [] then e.1.getLast? else none
    else []
  | none => []

/-- The tree with `node` at `place`, in place of what was there. -/
def set (t : FileTree) (place : List String) (node : Node) : FileTree :=
  ⟨(place, node) :: t.entries.filter (·.1 ≠ place)⟩

/-- Goes by these names, and makes a directory wherever nothing is there. Says where that leads,
unless a file is in the way. -/
def makeDirectories (t : FileTree) (way : List String) : FileTree × Option (List String) :=
  way.foldl (fun
    | (t, none), _ => (t, none)
    | (t, some place), name =>
      match t.descend place name with
      | some next => (t, if t.node? next = some .directory then some next else none)
      | none =>
        if name = ".." then (t, none)
        else (t.set (place ++ [name]) .directory, some (place ++ [name]))) (t, some [])

/-- The tree with a file at `p` and the directories on the way to it. A directory is not
overwritten. -/
def write (t : FileTree) (p : Path) (bytes : Bytes) : FileTree :=
  let name := (names p).getLastD ""
  if p.startsWith "/" ∨ name ∈ ["", ".", ".."] then t
  else
    match t.makeDirectories (names p).dropLast with
    | (t, none) => t
    | (t, some place) =>
      if t.node? (place ++ [name]) = some .directory then t
      else t.set (place ++ [name]) (.file bytes)

/-- The tree without the file at `p`. A directory stays. -/
def remove (t : FileTree) (p : Path) : FileTree :=
  match t.resolve? p with
  | none => t
  | some place =>
    if t.node? place = some .directory then t
    else ⟨t.entries.filter (·.1 ≠ place)⟩

end FileTree

end Postmortem
