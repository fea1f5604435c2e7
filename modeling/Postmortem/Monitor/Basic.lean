import Postmortem.Backtrace
import Postmortem.Fault
import Postmortem.Host

/-!
# Monitors

A monitor is told of every call between a host and its scripts and of every fault. It keeps the
open calls of all machines on one stack, and what it found out about each machine in a registry.

* `Monitor` is that state. What a monitor does to the world outside is a list of `Effect`.
* `Monitor.backtrace` is the script backtrace of the machine with the innermost open call.
-/

namespace Postmortem

/-- Who runs commands and ends the process: the host in its own way, or the platform. -/
inductive ProcessControl where
  | delegated
  | platform
  deriving DecidableEq, Repr

structure Services where
  symbols : SymbolSource
  modules : ModuleMap
  unwinder : Unwinder
  process : ProcessControl

namespace Services

/-- The services of a process without knowledge of its own address space: no word of it can be
read, and no address lies in a file that was loaded. -/
def system : Services where
  symbols := .sidecar SymbolSource.sidecarExtension
  modules _ := none
  unwinder := .walking Unwinder.defaultLimit (fun _ => none) (fun _ => none)
  process := .platform

end Services

/-- What becomes of a fault that a monitor is told of. -/
inductive Verdict where
  /-- A debugger detaches, which is no fault. -/
  | suppressed
  /-- It was reported where it arose, and is on its way out. -/
  | repeated
  /-- It was reported, and the host goes on. -/
  | goOn
  /-- It was reported, and the process was to end. -/
  | abort
  deriving DecidableEq, Repr

inductive Effect where
  | line (text : String)
  /-- The host was asked for the frames of its own stack. -/
  | unwound (trap : Option Trap)
  | started (process : ProcessControl) (command : String)
  | ended (process : ProcessControl) (status : Int32)
  /-- A fault at an entry point of a machine was judged, for the first time on its way out. -/
  | judged (owner : Handle) (index : Int32) (fault : Fault) (verdict : Verdict)
  deriving DecidableEq, Repr

structure Monitor where
  settings : Settings
  services : Services
  calls : CallStack := {}
  registry : Registry
  /-- The fault that is on its way out has been judged. -/
  judged : Bool := false

namespace Monitor

/-- A monitor that has seen nothing. -/
def start (settings : Settings) (services : Services) (env : Environment) : Monitor where
  settings := settings
  services := services
  registry := { locator := .ofSettings settings env, source := services.symbols }

def instance? (s : Monitor) (h : Handle) : Option Instance := s.registry.get? h

def observe (s : Monitor) (host : Host) (view : Nat) : Monitor :=
  { s with registry := s.registry.observe host.files view (host.machine view) }

/-- A machine that is not in the registry has no backtrace. -/
def backtrace (s : Monitor) (host : Host) : Backtrace :=
  match s.calls.top?.bind (s.instance? ·.owner) with
  | some i => .ofCalls (host.machine i.view) i s.services.modules s.calls.calls
  | none => []

def say (s : Monitor) (texts : List String) : List Effect :=
  texts.map fun text => .line (s.settings.marker ++ text)

def sayBacktrace (s : Monitor) (host : Host) : List Effect := s.say (s.backtrace host).lines

/-- A host that hands in its frames or their addresses is asked for them. A walk asks nobody. -/
def askFrames (s : Monitor) (trap : Option Trap) : List Effect :=
  match s.services.unwinder with
  | .given _ | .captured _ _ => [.unwound trap]
  | .walking _ _ _ => []

def saySystem (s : Monitor) (trap : Option Trap) : List Effect :=
  s.askFrames trap ++ s.say (Backtrace.systemLines (s.services.unwinder.frames trap))

end Monitor

end Postmortem
