import Postmortem.FileTree
import Postmortem.Symbols.Table

/-!
# Where symbols come from

The symbols of a script are kept in a JSON document beside it, its sidecar: the script's path with
another extension. A host may also hand in a map for all scripts, or none at all.
-/

namespace Postmortem

/-- Why a script has no symbols. -/
inductive SymbolError where
  | withheld
  /-- The sidecar is no readable file, or no UTF-8. -/
  | unreadable (path : Path)
  | refused (path : Path) (cause : Json.Error)
  deriving DecidableEq, Repr

namespace SymbolError

/-- What failed, without the cause. -/
def subject : SymbolError → String
  | withheld => "no symbols"
  | unreadable path => "failed to read symbol file " ++ path
  | refused path _ => "failed to parse symbol file " ++ path

def cause : SymbolError → String
  | withheld => "the host keeps none"
  | unreadable _ => "not a readable text file"
  | refused _ cause => cause.message

def message (e : SymbolError) : String := e.subject ++ ": " ++ e.cause

end SymbolError

inductive SymbolSource where
  | withheld
  /-- A document beside the script, with this extension. -/
  | sidecar (ext : String)
  | fixed (map : SymbolMap)

namespace SymbolSource

def sidecarExtension : String := "sym.json"

def readSidecar (files : FileTree) (path : Path) : Except SymbolError SymbolMap :=
  match (files.read? path).bind fun bytes => String.fromUTF8? ⟨bytes⟩ with
  | none => .error (.unreadable path)
  | some text =>
    match Document.read SymbolMap text with
    | .ok map => .ok map
    | .error cause => .error (.refused path cause)

def load (s : SymbolSource) (files : FileTree) (script : Path) : Except SymbolError SymbolTable :=
  match s with
  | withheld => .error .withheld
  | sidecar ext => SymbolMap.table <$> readSidecar files (script.withExtension ext)
  | fixed map => .ok map.table

end SymbolSource

end Postmortem
