import Postmortem.Monitor.Faults

/-!
# Calls under a monitor

Every call between host and script is entered and left through the monitor. On the way out of an
entry point a fault is judged, unless that was done further in. A call that succeeds ends the way
out of whatever fault it absorbed.

* `Monitor.enterEntry` and `Monitor.leaveEntry` bracket the run of an entry point.
* `Monitor.enterNative` and `Monitor.leaveNative` bracket the run of a native.
-/

namespace Postmortem

namespace Monitor

def push (s : Monitor) (c : Call) : Monitor := { s with calls := s.calls.push c }

/-- The call ends, and nothing is known of its outcome. -/
def abandon (s : Monitor) (g : Guard) : Monitor := { s with calls := s.calls.drop g }

/-- The call of an entry point keeps where the machine stands when it is made. -/
def entryCall (m : Machine) (index : Int32) : Call :=
  .entry m.handle index m.registers.cip m.registers.frm

def enterEntry (s : Monitor) (host : Host) (view : Nat) (index : Int32) : Monitor :=
  (s.observe host view).push (entryCall (host.machine view) index)

/-- What the outcome of an entry point means for the fault that is on its way out. -/
def conclude (s : Monitor) (host : Host) (view : Nat) (index : Int32) :
    Outcome → Monitor × List Effect
  | .failed fault => if s.judged then (s, []) else s.judge host view index fault
  | .returned _ => ({ s with judged := false }, [])

/-- No fault is on its way out once no call is open. -/
def settle (s : Monitor) : Monitor := { s with judged := s.judged && !s.calls.isEmpty }

/-- The call is still open while its outcome is looked at. -/
def leaveEntry (s : Monitor) (host : Host) (view : Nat) (index : Int32) (g : Guard)
    (outcome : Outcome) : Monitor × List Effect :=
  let (s, effects) := s.conclude host view index outcome
  ((s.abandon g).settle, effects)

def enterNative (s : Monitor) (host : Host) (view : Nat) (index : Int32) : Monitor :=
  (s.observe host view).push (.native (host.machine view).handle index)

/-- The handler that runs the natives of a machine. -/
def handler? (s : Monitor) (h : Handle) : Option String := (s.instance? h).bind (·.handler)

def leaveNative (s : Monitor) (g : Guard) (outcome : Outcome) : Monitor :=
  let s := match outcome with
    | .returned _ => { s with judged := false }
    | .failed _ => s
  s.abandon g

/-- What a monitor may be told that has no answer. -/
inductive Notice where
  | created (view : Nat)
  | destroyed (h : Handle)
  | crashed (trap : Option Trap)
  | interrupted (trap : Option Trap)
  | showScript
  | showSystem (trap : Option Trap)
  /-- A call was opened whose guard nobody holds. -/
  | leaked (call : Call)
  deriving DecidableEq, Repr

def take (s : Monitor) (host : Host) : Notice → Monitor × List Effect
  | .created view => (s.observe host view, [])
  | .destroyed h => ({ s with registry := s.registry.erase h }, [])
  | .crashed trap => (s, s.crash host trap)
  | .interrupted trap => (s, s.interrupt host trap)
  | .showScript => (s, s.sayBacktrace host)
  | .showSystem trap => (s, s.saySystem trap)
  | .leaked call => (s.push call, [])

end Monitor

end Postmortem
