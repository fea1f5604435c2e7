import Postmortem.Program.Run

/-!
# Bridges

A bridge gives a thread of a host one monitor without handing it around. A monitor is installed,
is in charge, and is removed. A call is left with the monitor it was entered with, so the bridge
keeps those that were removed.

* `Bridge.answer` is what each request does.
* `Bridge.Failure.payload` is the document a host gets about the last failure.
-/

namespace Postmortem

/-- Why a bridge refuses a request. -/
inductive Bridge.Failure where
  | notUnicode
  | settings (cause : Settings.Error)
  | occupied
  deriving DecidableEq, Repr

namespace Bridge.Failure

def kind : Failure → String
  | notUnicode => "invalid_utf8"
  | settings _ => "config_error"
  | occupied => "already_installed"

def message : Failure → String
  | notUnicode => "ffi payload was not valid UTF-8"
  | settings cause => cause.message
  | occupied => "a coordinator is already installed on this thread"

def payload (f : Failure) : String :=
  (Json.record
    [("ok", .bool false),
     ("error", .record [("kind", .text f.kind), ("message", .text f.message)])]).write

end Bridge.Failure

structure Bridge where
  /-- Every monitor that was ever installed, in that order. -/
  monitors : List Monitor := []
  /-- Number of the one in charge. -/
  seat : Option Nat := none
  /-- Only settings in text form that were refused leave a failure behind. -/
  lastFailure : Option Bridge.Failure := none

namespace Bridge

inductive Request where
  /-- A monitor with the services of the system, and with settings in text form or none. -/
  | start (settings : Option Bytes)
  | install (settings : Settings) (services : Services)
  | remove
  | stop
  | lastFailure

inductive Reply where
  | status (n : Int32)
  | installed
  | refused (f : Failure)
  | removed (b : Bool)
  /-- The payload of a failure, if there was one. -/
  | failure (payload : Option String)
  deriving DecidableEq, Repr

/-- Settings end at the first null byte. Without settings every one has its default. -/
def readSettings : Option Bytes → Except Failure Settings
  | none => .ok {}
  | some bytes =>
    match String.fromUTF8? ⟨bytes.takeWhile (· ≠ 0)⟩ with
    | none => .error .notUnicode
    | some text =>
      match Settings.read text with
      | .ok s => .ok s
      | .error cause => .error (.settings cause)

def install (b : Bridge) (s : Monitor) : Except Failure Bridge :=
  if b.seat.isSome then .error .occupied
  else .ok { b with monitors := b.monitors ++ [s], seat := some b.monitors.length }

def vacate (b : Bridge) : Bridge := { b with seat := none }

def start (b : Bridge) (env : Environment) (settings : Option Bytes) : Except Failure Bridge := do
  b.install (.start (← readSettings settings) .system env)

def statusOk : Int32 := 0

def statusFailed : Int32 := -1

/-- Removing and stopping differ only in how they tell whether a monitor was in charge. -/
def answer (b : Bridge) (host : Host) : Request → Reply × Bridge
  | .start settings =>
    match b.start host.environment settings with
    | .ok b => (.status statusOk, b)
    | .error f => (.status statusFailed, { b with lastFailure := some f })
  | .install settings services =>
    match b.install (.start settings services host.environment) with
    | .ok b => (.installed, b)
    | .error f => (.refused f, b)
  | .remove => (.removed b.seat.isSome, b.vacate)
  | .stop => (.status (if b.seat.isSome then 1 else 0), b.vacate)
  | .lastFailure => (.failure (b.lastFailure.map Failure.payload), b)

def current? (b : Bridge) : Option (Nat × Monitor) := do
  let n ← b.seat
  return (n, ← b.monitors[n]?)

def serve (b : Bridge) (n : Nat) (f : Monitor → Monitor × List Effect) : Bridge × List Effect :=
  match b.monitors[n]? with
  | some s => ({ b with monitors := b.monitors.set n (f s).1 }, (f s).2)
  | none => (b, [])

instance : Desk Bridge Nat Request Reply where
  current? := current?
  serve := serve
  answer := answer

end Bridge

end Postmortem
