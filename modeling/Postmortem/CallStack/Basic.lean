import Postmortem.Machine

/-!
# Call stacks

The calls that are open between a host and its scripts, on all machines together. Every call holds
a guard, and a call ends when its guard is dropped.

* `CallStack.push` opens a call, `CallStack.drop` ends it with whatever was opened above it and
  never ended.
-/

namespace Postmortem

/-- A call across the boundary between host and script. -/
inductive Call where
  /-- A script runs the native at `index`. -/
  | native (owner : Handle) (index : Int32)
  /-- The host runs the entry point at `index`. The script it interrupts goes on at `ip`, in the
  frame at `fp`. -/
  | entry (owner : Handle) (index : Int32) (ip fp : Cell)
  deriving DecidableEq, Repr

namespace Call

def owner : Call → Handle
  | native owner _ => owner
  | entry owner _ _ _ => owner

def isNative : Call → Bool
  | native _ _ => true
  | entry _ _ _ _ => false

end Call

structure Guard where
  call : Call
  /-- How many calls are open from this one down, itself among them. -/
  depth : Nat
  deriving DecidableEq, Repr

structure CallStack where
  /-- Oldest first. -/
  calls : List Call := []
  deriving DecidableEq, Repr

namespace CallStack

def depth (s : CallStack) : Nat := s.calls.length

def isEmpty (s : CallStack) : Bool := s.calls.isEmpty

def top? (s : CallStack) : Option Call := s.calls.getLast?

/-- The guard of a call that is opened now. -/
def guard (s : CallStack) (c : Call) : Guard := ⟨c, s.depth + 1⟩

def push (s : CallStack) (c : Call) : CallStack := ⟨s.calls ++ [c]⟩

/-- Calls above the guarded one have lost their guards, so they end with it. -/
def drop (s : CallStack) (g : Guard) : CallStack := ⟨s.calls.take (g.depth - 1)⟩

@[simp] theorem calls_push (s : CallStack) (c : Call) : (s.push c).calls = s.calls ++ [c] := rfl

@[simp] theorem top?_push (s : CallStack) (c : Call) : (s.push c).top? = some c := by
  simp [top?]

end CallStack

end Postmortem
