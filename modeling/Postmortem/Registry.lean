import Postmortem.Locator
import Postmortem.Symbols.Source

/-!
# Registries

What is known of the machines that were seen, each found out when a machine is first seen and kept
until it is destroyed. A machine whose script or symbols are not found is kept all the same.

* `Registry.observe` finds out about a machine unless that has been done.
-/

namespace Postmortem

structure Instance where
  /-- The view of the machine that was seen first, by its number with the host. -/
  view : Nat
  /-- The file of the script, if it was found. -/
  path : Option Path
  symbols : Option SymbolTable
  /-- The handler that ran the natives of the machine when it was first seen. -/
  handler : Option String

namespace Instance

/-- The file name of the script, empty if it was not found. -/
def name (i : Instance) : String := (i.path.bind Path.fileName?).getD ""

end Instance

structure Registry where
  locator : Locator
  source : SymbolSource
  entries : List (Handle × Instance) := []

namespace Registry

def get? (r : Registry) (h : Handle) : Option Instance := r.entries.lookup h

def contains (r : Registry) (h : Handle) : Bool := (r.get? h).isSome

def size (r : Registry) : Nat := r.entries.length

def isEmpty (r : Registry) : Bool := r.entries.isEmpty

/-- Symbols are looked for only where the image says that there are some. -/
def symbols? (r : Registry) (files : FileTree) (m : Machine) (script : Path) :
    Option SymbolTable :=
  if m.debugInfo then (r.source.load files script).toOption else none

def build (r : Registry) (files : FileTree) (view : Nat) (m : Machine) : Instance :=
  let path := r.locator.locate? files m.image
  ⟨view, path, path.bind (r.symbols? files m), m.handler⟩

def observe (r : Registry) (files : FileTree) (view : Nat) (m : Machine) : Registry :=
  if r.contains m.handle then r
  else { r with entries := (m.handle, r.build files view m) :: r.entries }

def erase (r : Registry) (h : Handle) : Registry :=
  { r with entries := r.entries.filter (·.1 ≠ h) }

theorem observe_of_contains {r : Registry} {m : Machine} (h : r.contains m.handle = true)
    (files : FileTree) (view : Nat) : r.observe files view m = r := if_pos h

theorem get?_observe_of_not_contains {r : Registry} {m : Machine}
    (h : r.contains m.handle = false) (files : FileTree) (view : Nat) :
    (r.observe files view m).get? m.handle = some (r.build files view m) := by
  simp [observe, h, get?]

theorem get?_erase (r : Registry) (h g : Handle) :
    (r.erase h).get? g = if g = h then none else r.get? g := by
  simp only [erase, get?]
  induction r.entries with
  | nil => simp
  | cons e es ih => grind

end Registry

end Postmortem
