import Postmortem.Frame.Basic
import Postmortem.Image
import Postmortem.Registers

/-!
# Frame walks

A frame keeps the base of its caller's frame, and one cell above that the address at which its
caller resumes. A walk follows the kept bases up the stack. Memory may be corrupt, so each hop has
to lead upward, stay inside the stack and stay below the frames of an enclosing run.

* `Walk.caller?` is one hop, `Walk.frames` the whole walk.
-/

namespace Postmortem

structure Walk where
  image : Image
  stack : Span
  symbols : Option SymbolTable := none
  /-- Frames from here on up belong to an enclosing run. -/
  bound : Option Cell := none
  /-- Base and resume address of the innermost frame. -/
  first : Option (Cell × Cell)

namespace Walk

/-- A walk from a frame at `fp` that has reached `ip`. -/
def start (image : Image) (stack : Span) (ip fp : Cell) : Walk where
  image := image
  stack := stack
  first := if fp ≠ 0 ∧ stack.HoldsFrame fp then some (fp, ip) else none

def withSymbols (w : Walk) (symbols : Option SymbolTable) : Walk := { w with symbols := symbols }

/-- The walk kept below `fp`. Zero is no bound. -/
def boundedBy (w : Walk) (fp : Cell) : Walk :=
  if fp = 0 then w else { w with bound := some fp, first := w.first.filter (·.1 < fp) }

def Within (w : Walk) (fp : Cell) : Prop := ∀ bound ∈ w.bound, fp < bound

-- Named, because a search may find one that tries every cell.
instance (w : Walk) (fp : Cell) : Decidable (w.Within fp) := Option.decidableForallMem w.bound

/-- The return address that the frame at `fp` keeps. -/
def kept? (w : Walk) (fp : Cell) : Option Cell :=
  (Cell.plus? fp Cell.width).bind w.image.dataCell

/-- Base and resume address of the frame that called the one at `fp`. -/
def caller? (w : Walk) (fp : Cell) : Option (Cell × Cell) := do
  let caller ← w.image.dataCell fp
  let resume ← w.kept? fp
  if resume ≠ 0 ∧ caller ≠ 0 ∧ fp < caller ∧ w.stack.HoldsFrame caller ∧ w.Within caller then
    some (caller, resume)
  else none

/-- The function that was called to make the frame at `fp`. The call names it in the cell before
the one the caller resumes at. Address zero holds no function. -/
def callee? (w : Walk) (fp : Cell) : Option Address := do
  let resume ← w.kept? fp
  if resume < 8 then none
  else
    let target ← w.image.codeCell (resume - 4)
    if 0 < target ∧ target % 4 = 0 ∧ (w.image.codeCell target).isSome then some target.toUInt32
    else none

/-- A walk gives up after this many frames. -/
def limit : Nat := 4096

/-- At most `n` hops, from a frame that may be missing. -/
def chain (w : Walk) : Nat → Option (Cell × Cell) → List (Cell × Cell)
  | _, none => []
  | 0, some _ => []
  | n + 1, some f => f :: w.chain n (w.caller? f.1)

theorem length_chain_le (w : Walk) (n : Nat) (f : Option (Cell × Cell)) :
    (w.chain n f).length ≤ n := by
  induction n generalizing f with
  | zero => cases f <;> simp [chain]
  | succ n ih => cases f <;> simp [chain, ih]

def frame (w : Walk) (f : Cell × Cell) : Frame :=
  let frame := Frame.resumingAt f.1 f.2 w.symbols
  { frame with entry := frame.entry.or (w.callee? f.1) }

/-- The frames from the innermost one outward. -/
def frames (w : Walk) : List Frame := (w.chain limit w.first).map w.frame

end Walk

end Postmortem
