import Postmortem.Monitor.Basic
import Postmortem.Report

/-!
# Faults under a monitor

What a monitor says and does about the faults of scripts, releases of memory outside the heap, and
traps of the host itself.

* `Monitor.judge` decides on a fault, reports it unless a debugger detaches, and remembers that
  the fault has been judged.
* `Monitor.hear` is for machines that tell of their faults: a fault is judged once on its way out.
-/

namespace Postmortem

namespace Monitor

def verdict (s : Monitor) (index : Int32) (fault : Fault) : Verdict :=
  if fault.isDetach index s.settings.detachIndex then .suppressed
  else if s.settings.dieOnError then .abort
  else .goOn

/-- Status of a process that a fault ends. -/
def failureStatus : Int32 := 1

/-- What the host wants done about every fault. -/
def policy (s : Monitor) : List Effect :=
  (if s.settings.runOnError = "" then [] else [.started s.services.process s.settings.runOnError])
    ++ if s.settings.dieOnError then
      s.say ["Aborting..."] ++ [.ended s.services.process failureStatus]
    else []

def report (s : Monitor) (host : Host) (m : Machine) (fault : Fault) : List Effect :=
  s.say (fault.headline :: fault.details m)
    ++ (if fault.wantsBacktrace then s.sayBacktrace host else []) ++ s.policy

def judge (s : Monitor) (host : Host) (view : Nat) (index : Int32) (fault : Fault) :
    Monitor × List Effect :=
  let m := host.machine view
  let verdict := s.verdict index fault
  ({ s with judged := true },
    .judged m.handle index fault verdict ::
      if verdict = .suppressed then [] else s.report host m fault)

/-- A machine tells of a fault at one of its entry points. -/
def hear (s : Monitor) (host : Host) (view : Nat) (index : Int32) (fault : Fault) :
    Verdict × Monitor × List Effect :=
  let s := s.observe host view
  if s.judged then (.repeated, s, []) else (s.verdict index fault, s.judge host view index fault)

/-- A native, called from `caller`, is about to release memory of a machine. -/
def checkRelease (s : Monitor) (host : Host) (view : Nat) (address : Cell) (caller : UInt64) :
    Monitor × List Effect :=
  let s := s.observe host view
  if (host.machine view).registers.heap.Contains address then (s, [])
  else
    (s, s.say ["Bad heap release detected:",
        " " ++ (s.services.modules.name? caller).getD "<unknown>" ++ " [" ++
          Text.hex 8 caller.toNat ++ "] is releasing memory at " ++
          Text.hex 8 address.toUInt32.toNat ++ " which is out of heap"]
      ++ s.saySystem none)

/-- The script with the innermost open call. -/
def executing? (s : Monitor) : Option String :=
  s.calls.top?.map fun call =>
    let name := (s.instance? call.owner).elim "" Instance.name
    if name = "" then "<unknown>" else name

/-- A line about the host, with the script and its backtrace if one is running. -/
def sayHost (s : Monitor) (host : Host) (running : String) (idle : String) : List Effect :=
  match s.executing? with
  | some name => s.say [running ++ " while executing " ++ name] ++ s.sayBacktrace host
  | none => s.say [idle]

def crash (s : Monitor) (host : Host) (trap : Option Trap) : List Effect :=
  s.sayHost host "Host crashed" "Host crashed due to an unknown error" ++ s.saySystem trap

def interrupt (s : Monitor) (host : Host) (trap : Option Trap) : List Effect :=
  s.sayHost host "Host received interrupt signal" "Host received interrupt signal" ++
    s.saySystem trap

end Monitor

end Postmortem
