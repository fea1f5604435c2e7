import Postmortem.Cell
import Postmortem.Json.Document

/-!
# Registers

The registers of a script machine and the two ranges they span: the live stack, in which frames
may lie, and the live heap, from which memory may be released.
-/

namespace Postmortem

structure Registers where
  /-- Instruction pointer, an offset into the code segment. The others are offsets into the data. -/
  cip : Cell
  /-- Frame pointer. -/
  frm : Cell
  /-- Stack pointer. -/
  stk : Cell
  /-- Heap pointer. -/
  hea : Cell
  /-- Bottom of the heap. -/
  hlw : Cell
  /-- Top of the stack. -/
  stp : Cell
  /-- Primary register. -/
  pri : Cell
  deriving DecidableEq, Repr

/-- Half-open range of data offsets. -/
structure Span where
  low : Cell
  high : Cell
  deriving DecidableEq, Repr

namespace Span

def Contains (s : Span) (a : Cell) : Prop :=
  s.low.toInt ≤ a.toInt ∧ a.toInt < s.high.toInt

instance (s : Span) (a : Cell) : Decidable (s.Contains a) :=
  inferInstanceAs (Decidable (_ ∧ _))

/-- A frame takes two cells: the saved frame pointer and the return address. -/
def HoldsFrame (s : Span) (fp : Cell) : Prop :=
  s.low.toInt ≤ fp.toInt ∧ fp.toInt + 2 * Cell.width ≤ s.high.toInt

instance (s : Span) (fp : Cell) : Decidable (s.HoldsFrame fp) :=
  inferInstanceAs (Decidable (_ ∧ _))

end Span

namespace Registers

/-- The stack grows down, from its top to the stack pointer. -/
def stack (r : Registers) : Span := ⟨r.stk, r.stp⟩

/-- The heap reaches up to the stack pointer, beyond the heap pointer itself. -/
def heap (r : Registers) : Span := ⟨r.hlw, r.stk⟩

end Registers

instance : Document Registers where
  toJson r := .record
    [("cip", Document.toJson r.cip), ("frm", Document.toJson r.frm),
     ("stk", Document.toJson r.stk), ("hea", Document.toJson r.hea),
     ("hlw", Document.toJson r.hlw), ("stp", Document.toJson r.stp),
     ("pri", Document.toJson r.pri)]
  ofJson v := do
    let fs ← v.fields ["cip", "frm", "stk", "hea", "hlw", "stp", "pri"]
    return {
      cip := ← fs.required "cip"
      frm := ← fs.required "frm"
      stk := ← fs.required "stk"
      hea := ← fs.required "hea"
      hlw := ← fs.required "hlw"
      stp := ← fs.required "stp"
      pri := ← fs.required "pri" }

end Postmortem
