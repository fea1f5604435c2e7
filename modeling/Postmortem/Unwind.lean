import Postmortem.Path
import Postmortem.Json.Document
import Postmortem.Text.Hex

/-!
# The host's own stack

Return addresses on the stack of the host process, each with the file that the code there was
loaded from. After a trap the stack is read from the frame pointer the trap left.

* `Trap.addresses` follows the frame pointers through memory of which any word may be unreadable.
* `Unwinder.frames` is what an unwinder answers.
-/

namespace Postmortem

/-- Where a thread of the host stood when it was stopped. -/
structure Trap where
  ip : UInt64
  fp : UInt64
  deriving DecidableEq, Repr

instance : Document Trap where
  toJson t := .record
    [("instruction_pointer", Document.toJson t.ip), ("frame_pointer", Document.toJson t.fp)]
  ofJson v := do
    let fs ← v.fields ["instruction_pointer", "frame_pointer"]
    return ⟨← fs.required "instruction_pointer", ← fs.required "frame_pointer"⟩

/-- The words of an address space that can be read. -/
abbrev Memory := UInt64 → Option UInt64

/-- The file that the code at an address was loaded from. -/
abbrev ModuleMap := UInt64 → Option Path

namespace ModuleMap

/-- The name of the file, if it has one. -/
def name? (modules : ModuleMap) (a : UInt64) : Option String :=
  ((modules a).bind Path.fileName?).filter (!·.isEmpty)

end ModuleMap

structure HostFrame where
  address : UInt64
  file : Option Path
  deriving DecidableEq, Repr

def HostFrame.text (f : HostFrame) : String :=
  Text.hex 16 f.address.toNat ++ f.file.elim "" (" from " ++ ·)

namespace Trap

/-- The return address kept by the frame at `fp`, one word above it. -/
def kept? (memory : Memory) (fp : UInt64) : Option UInt64 :=
  if fp.toNat + 8 < UInt64.size then memory (fp + 8) else none

/-- At most `n` return addresses, from the frame at `fp` outward. -/
def returns (memory : Memory) : Nat → UInt64 → List UInt64
  | 0, _ => []
  | n + 1, fp =>
    if fp = 0 ∨ fp % 8 ≠ 0 then []
    else match memory fp, kept? memory fp with
      | some next, some ret =>
        if ret = 0 then []
        else if next ≤ fp then [ret]
        else ret :: returns memory n next
      | _, _ => []

/-- The instruction pointer comes first, whatever `limit` says. -/
def addresses (memory : Memory) (limit : Nat) (t : Trap) : List UInt64 :=
  t.ip :: returns memory (limit - 1) t.fp

end Trap

/-- Where the frames of a host stack come from. -/
inductive Unwinder where
  /-- Frames handed in by the host. -/
  | given (frames : List HostFrame)
  /-- Addresses handed in by the host. -/
  | captured (addresses : List UInt64) (modules : ModuleMap)
  /-- A walk through memory. Without a trap there is nothing to start from. -/
  | walking (limit : Nat) (memory : Memory) (modules : ModuleMap)

namespace Unwinder

def defaultLimit : Nat := 64

def frames (u : Unwinder) (trap : Option Trap) : List HostFrame :=
  match u with
  | given frames => frames
  | captured addresses modules => addresses.map fun a => ⟨a, modules a⟩
  | walking limit memory modules =>
    (trap.elim [] (Trap.addresses memory limit)).map fun a => ⟨a, modules a⟩

end Unwinder

end Postmortem
