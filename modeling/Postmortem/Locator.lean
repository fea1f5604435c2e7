import Postmortem.FileTree
import Postmortem.Machine
import Postmortem.Settings.Basic

/-!
# Locating scripts

A machine does not say which file its script came from. It is found by its code: the file of the
first script whose bytes, from the code offset on, begin with the code of the machine.

* `Locator.candidates` are the script files, by directory and then by name.
* `Locator.locate?` is the first that matches.
-/

namespace Postmortem

structure Locator where
  searchPaths : List Path
  /-- Upper and lower case of it count the same. -/
  ext : String := "amx"
  deriving DecidableEq, Repr

namespace Locator

def ofSettings (s : Settings) (env : Environment) : Locator where
  searchPaths := s.searchPaths env

def foldCase (s : String) : List Char := s.toList.map Char.toLower

def isScript (l : Locator) (files : FileTree) (p : Path) : Bool :=
  (files.read? p).isSome && p.extension?.any fun e => foldCase e = foldCase l.ext

/-- The script files in a directory, by name. -/
def candidatesIn (l : Locator) (files : FileTree) (dir : Path) : List Path :=
  (((files.list dir).mergeSort fun a b => decide (a ≤ b)).map (Path.join dir)).filter
    (l.isScript files)

def candidates (l : Locator) (files : FileTree) : List Path :=
  l.searchPaths.flatMap (l.candidatesIn files)

/-- The image keeps its header, so the code lies at the same offset in the file. -/
def Matches (i : Image) (bytes : Bytes) : Prop :=
  bytes.extract i.header.code.toNat (i.header.code.toNat + i.code.size) = i.code

instance (i : Image) (bytes : Bytes) : Decidable (Matches i bytes) :=
  inferInstanceAs (Decidable (_ = _))

/-- Every file would match a machine without code, so none is taken to. -/
def locate? (l : Locator) (files : FileTree) (i : Image) : Option Path :=
  if i.code.isEmpty then none
  else (l.candidates files).find? fun p => (files.read? p).any fun bytes => Matches i bytes

end Locator

end Postmortem
