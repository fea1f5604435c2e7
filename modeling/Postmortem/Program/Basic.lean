import Postmortem.Monitor.Calls

/-!
# Programs

What a host does while a monitor looks on: calls nested in calls to any depth, faults, notices,
and changes of its own. A program is a tree. After each step it goes on according to the answer.

A call has no answer where no monitor is in charge, and then its body is not run. A panic leaves
every call it passes through and ends in a `guarded` step, if there is one.
-/

namespace Postmortem

/-- Programs that make requests `β`, answered by `ρ`, and leave notes `ν` in their trace. -/
inductive Program (β ρ ν : Type) where
  | done (outcome : Outcome)
  | panic
  | note (n : ν) (next : Program β ρ ν)
  | change (f : Host → Host) (next : Program β ρ ν)
  /-- Looks at the monitor in charge and at the host. -/
  | inspect (next : Option Monitor → Host → Program β ρ ν)
  | tell (n : Monitor.Notice) (next : Program β ρ ν)
  /-- A machine tells of a fault. -/
  | raise (view : Nat) (index : Int32) (fault : Fault) (next : Option Verdict → Program β ρ ν)
  /-- `body` releases memory at `address`, whether that is right or not. -/
  | release (view : Nat) (address : Cell) (caller : UInt64) (body : Program β ρ ν)
      (next : Option Outcome → Program β ρ ν)
  /-- The host runs an entry point. -/
  | enter (view : Nat) (index : Int32) (body : Program β ρ ν)
      (next : Option Outcome → Program β ρ ν)
  /-- A script runs a native, in the handler of its machine. -/
  | native (view : Nat) (index : Int32) (body : String → Program β ρ ν)
      (next : Option Outcome → Program β ρ ν)
  /-- Goes on with no outcome where `body` panics. -/
  | guarded (body : Program β ρ ν) (next : Option Outcome → Program β ρ ν)
  | request (b : β) (next : ρ → Program β ρ ν)

end Postmortem
