/-!
# Paths

Paths as they are written: names separated by slashes, never normalised. The last name of a path
is found past trailing slashes and single dots; the rules for names, stems and extensions are
those of slash-separated paths everywhere.

* `Path.fileName?`, `Path.extension?` and `Path.stem?` take a path apart.
* `Path.withExtension` replaces what follows the stem.
* `Path.join` puts a name below a directory.
-/

namespace Postmortem

abbrev Path := String

namespace Path

/-- The path, last character first, without the slashes and the single dots at its end. -/
def dropTail : List Char → List Char
  | '/' :: cs => dropTail cs
  | '.' :: '/' :: cs => dropTail cs
  | cs => cs

/-- The last name of a path that is given last character first. -/
def lastName (reversed : List Char) : List Char :=
  ((dropTail reversed).takeWhile (· ≠ '/')).reverse

def fileName? (p : Path) : Option String :=
  let name := lastName p.toList.reverse
  if name = [] ∨ name = ['.'] ∨ name = ['.', '.'] then none else some (String.ofList name)

/-- A name cut at its last dot. A dot that starts the name does not cut it. -/
def cut (name : List Char) : List Char × Option (List Char) :=
  let after := (name.reverse.takeWhile (· ≠ '.')).reverse
  let before := (name.reverse.dropWhile (· ≠ '.')).drop 1
  if before = [] then (name, none) else (before.reverse, some after)

def stem? (p : Path) : Option String := p.fileName?.map fun n => String.ofList (cut n.toList).1

def extension? (p : Path) : Option String :=
  p.fileName?.bind fun n => (cut n.toList).2.map String.ofList

/-- The path with what follows the stem of its last name replaced. A path without a last name is
left as it is. -/
def setExtension (p : Path) (ext : String) : Path :=
  match p.stem? with
  | none => p
  | some stem =>
    let before := (dropTail p.toList.reverse).dropWhile (· ≠ '/')
    String.ofList before.reverse ++ stem ++ (if ext.isEmpty then "" else "." ++ ext)

/-- As many characters as the old extension has go first, from the end of the path. This shows
where nothing is left in front of the old extension but dots. -/
def withExtension (p : Path) (ext : String) : Path :=
  match p.extension? with
  | none => p.setExtension ext
  | some old => setExtension (p.dropEnd old.length).copy ext

def join (dir : Path) (name : String) : Path :=
  if dir.isEmpty then name else if dir.endsWith "/" then dir ++ name else dir ++ "/" ++ name

end Path

end Postmortem
