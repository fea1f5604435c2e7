import Postmortem.Proofs.Location
import Postmortem.Registry

/-!
# What is found out about a machine

A machine that is seen for the first time is looked up in the files as they are then: its script is
the first file with its code, and its symbols are those that the source has for that script. Both may
be missing, and the rest is found out all the same.

* `SymbolSource.Supplies`: the symbols that a source has for a script, with no loading in sight.
* `Instance.Found`: what is found out, with no registry in sight.
* `Registry.found_iff`: that is what a registry builds, and nothing else is.
-/

namespace Postmortem

namespace SymbolSource

/-- The source has these symbols for the script: those that it has for all, or those that the text
beside the script lists. -/
inductive Supplies (files : FileTree) (script : Path) : SymbolSource → SymbolTable → Prop
  | sidecar {ext text : String} {bytes : Bytes} {map : SymbolMap}
      (read : files.read? (script.withExtension ext) = some bytes)
      (stored : bytes.toList = Text.octets text)
      (listed : Document.read SymbolMap text = .ok map) :
      Supplies files script (.sidecar ext) map.table
  | fixed (map : SymbolMap) : Supplies files script (.fixed map) map.table

variable {files : FileTree} {script path : Path}

theorem readSidecar_eq_ok_iff {map : SymbolMap} :
    readSidecar files path = .ok map ↔ ∃ bytes text, files.read? path = some bytes ∧
      bytes.toList = Text.octets text ∧ Document.read SymbolMap text = .ok map := by
  have content {text : String} :
      (files.read? path).bind (fun bytes => String.fromUTF8? ⟨bytes⟩) = some text ↔
        ∃ bytes, files.read? path = some bytes ∧ bytes.toList = Text.octets text := by
    simp only [Option.bind_eq_some_iff, Text.fromUTF8?_eq_some_iff]
  constructor
  · intro ok
    unfold readSidecar at ok
    split at ok
    case h_1 => cases ok
    case h_2 text said =>
      obtain ⟨bytes, read, stored⟩ := content.mp said
      split at ok
      case h_2 => cases ok
      case h_1 listed =>
        cases ok
        exact ⟨bytes, text, read, stored, listed⟩
  · rintro ⟨bytes, text, read, stored, listed⟩
    have said := content.mpr ⟨bytes, read, stored⟩
    simp only [readSidecar, said, listed]

theorem load_eq_ok_iff {source : SymbolSource} {table : SymbolTable} :
    source.load files script = .ok table ↔ Supplies files script source table := by
  cases source with
  | withheld => exact iff_of_false nofun nofun
  | fixed map =>
    constructor
    · rintro ⟨⟩
      exact .fixed map
    · rintro ⟨⟩
      rfl
  | sidecar ext =>
    have load : (sidecar ext).load files script =
        SymbolMap.table <$> readSidecar files (script.withExtension ext) := rfl
    constructor
    · intro ok
      cases read : readSidecar files (script.withExtension ext) with
      | error cause =>
        rw [load, read] at ok
        cases ok
      | ok map =>
        rw [load, read] at ok
        cases ok
        obtain ⟨bytes, text, found, stored, listed⟩ := readSidecar_eq_ok_iff.mp read
        exact .sidecar found stored listed
    · rintro ⟨found, stored, listed⟩
      rw [load, readSidecar_eq_ok_iff.mpr ⟨_, _, found, stored, listed⟩]
      rfl

end SymbolSource

/-- What is found out about a machine that is seen through a view, with the files as they are. -/
structure Instance.Found (l : Locator) (source : SymbolSource) (files : FileTree) (view : Nat)
    (m : Machine) (i : Instance) : Prop where
  view : i.view = view
  /-- The script is the first file with the code of the machine. A machine without code has none. -/
  script : ∀ p, i.path = some p ↔ m.image.code ≠ #[] ∧ l.First files.volume m.image p
  named : ∀ p, i.path = some p → p.fileName? = some i.name
  unnamed : i.path = none → i.name = ""
  /-- Symbols are those of the script, if the image says that there are some. -/
  symbols : ∀ table, i.symbols = some table ↔
    m.debugInfo ∧ ∃ p, i.path = some p ∧ SymbolSource.Supplies files p source table
  handler : i.handler = m.handler

namespace Locator

variable {l : Locator} {files : FileTree} {i : Image} {p : Path}

theorem locate?_eq_some_iff :
    l.locate? files i = some p ↔ i.code ≠ #[] ∧ l.First files.volume i p := by
  rw [locate?_eq_search?]
  by_cases bare : i.code = #[]
  · rw [search?_of_no_code bare]
    exact iff_of_false nofun fun ⟨coded, _⟩ => coded bare
  · rw [search?_eq_some_iff bare]
    exact (and_iff_right bare).symm

/-- A script that is found has an extension, and so it has a name. -/
theorem First.exists_fileName {v : Volume} (first : l.First v i p) :
    ∃ name, p.fileName? = some name := by
  obtain ⟨_, dir, name, _, rfl, fits, _⟩ := first
  obtain ⟨e, extended, _⟩ := fits.ext
  obtain ⟨last, named, _⟩ := Option.bind_eq_some_iff.mp extended
  exact ⟨last, named⟩

end Locator

namespace Registry

variable (r : Registry) (files : FileTree) (view : Nat) (m : Machine)

theorem symbols?_eq_some_iff {script : Path} {table : SymbolTable} :
    r.symbols? files m script = some table ↔
      m.debugInfo ∧ SymbolSource.Supplies files script r.source table := by
  rw [symbols?, Option.ite_none_right_eq_some, ← SymbolSource.load_eq_ok_iff]
  cases r.source.load files script with
  | ok found => simp only [Except.toOption, Option.some.injEq, Except.ok.injEq]
  | error cause => simp only [Except.toOption, reduceCtorEq]

theorem found_build :
    (r.build files view m).Found r.locator r.source files view m where
  view := rfl
  script _ := Locator.locate?_eq_some_iff
  named p located := by
    obtain ⟨_, first⟩ := Locator.locate?_eq_some_iff.mp located
    obtain ⟨name, named⟩ := first.exists_fileName
    rw [Instance.name, located, Option.bind_some, named, Option.getD_some]
  unnamed missing := by
    rw [Instance.name, missing, Option.bind_none, Option.getD_none]
  symbols table := by
    have looked : (r.build files view m).symbols =
        (r.build files view m).path.bind (r.symbols? files m) := rfl
    rw [looked, Option.bind_eq_some_iff]
    simp only [symbols?_eq_some_iff, and_left_comm, exists_and_left]
  handler := rfl

end Registry

/-- The findings leave nothing open. -/
theorem Instance.Found.unique {l : Locator} {source : SymbolSource} {files : FileTree} {view : Nat}
    {m : Machine} {i j : Instance} (found : i.Found l source files view m)
    (found' : j.Found l source files view m) : i = j := by
  have path : i.path = j.path := Option.ext fun p => (found.script p).trans (found'.script p).symm
  have symbols : i.symbols = j.symbols := by
    apply Option.ext
    intro table
    rw [found.symbols, found'.symbols, path]
  have view : i.view = j.view := found.view.trans found'.view.symm
  have handler : i.handler = j.handler := found.handler.trans found'.handler.symm
  obtain ⟨_, _, _, _⟩ := i
  obtain ⟨_, _, _, _⟩ := j
  cases view
  cases path
  cases symbols
  cases handler
  rfl

theorem Registry.found_iff {r : Registry} {files : FileTree} {view : Nat} {m : Machine}
    {i : Instance} : i.Found r.locator r.source files view m ↔ i = r.build files view m := by
  constructor
  · intro found
    exact found.unique (r.found_build files view m)
  · rintro rfl
    exact r.found_build files view m

end Postmortem
