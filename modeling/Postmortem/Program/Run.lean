import Postmortem.Program.Basic

/-!
# Runs of programs

A program is run against a desk: one monitor, or a place that monitors come to and go from. A call
is left with the monitor it was entered with, even if another one is in charge by then.

* `Program.run` gives the outcome, the desk and the host after it, and the trace.
-/

namespace Postmortem

/-- Desks `σ`, with names `κ` for the monitors that were ever in charge there. -/
class Desk (σ : Type) (κ β ρ : outParam Type) where
  current? : σ → Option (κ × Monitor)
  /-- Has one monitor do something, whether it is still in charge or not. -/
  serve : σ → κ → (Monitor → Monitor × List Effect) → σ × List Effect
  answer : σ → Host → β → ρ × σ

/-- A monitor alone is always in charge and has no requests to answer. -/
instance : Desk Monitor Unit Empty Empty where
  current? s := some ((), s)
  serve s _ f := f s
  answer _ _ b := b.elim

namespace Desk

variable {σ κ β ρ : Type} [Desk σ κ β ρ]

def monitor? (d : σ) : Option Monitor := (current? d).map (·.2)

/-- Has one monitor do something that nobody outside notices. -/
def update (d : σ) (k : κ) (f : Monitor → Monitor) : σ := (serve d k fun s => (f s, [])).1

/-- Has the monitor in charge do something. -/
def tell (d : σ) (f : Monitor → Monitor × List Effect) : σ × List Effect :=
  match current? d with
  | some (k, _) => serve d k f
  | none => (d, [])

end Desk

/-- What a run leaves behind. -/
structure Run (σ ν : Type) where
  /-- `none` after a panic. -/
  outcome : Option Outcome
  desk : σ
  host : Host
  /-- What the monitors did and what the program noted, in order. -/
  trace : List (Effect ⊕ ν)

namespace Run

variable {σ ν : Type}

def after (r : Run σ ν) (trace : List (Effect ⊕ ν)) : Run σ ν :=
  { r with trace := trace ++ r.trace }

def afterEffects (r : Run σ ν) (effects : List Effect) : Run σ ν := r.after (effects.map .inl)

end Run

namespace Program

variable {σ κ β ρ ν : Type} [Desk σ κ β ρ]

def run : Program β ρ ν → σ → Host → Run σ ν
  | .done outcome, d, h => ⟨some outcome, d, h, []⟩
  | .panic, d, h => ⟨none, d, h, []⟩
  | .note n next, d, h => (next.run d h).after [.inr n]
  | .change f next, d, h => next.run d (f h)
  | .inspect next, d, h => (next (Desk.monitor? d) h).run d h
  | .tell n next, d, h =>
    let (d, effects) := Desk.tell d (·.take h n)
    (next.run d h).afterEffects effects
  | .raise view index fault next, d, h =>
    match Desk.current? d with
    | none => (next none).run d h
    | some (k, s) =>
      let (d, effects) := Desk.serve d k fun s => (s.hear h view index fault).2
      ((next (some (s.hear h view index fault).1)).run d h).afterEffects effects
  | .release view address caller body next, d, h =>
    match Desk.current? d with
    | none => (next none).run d h
    | some (k, _) =>
      let (d, effects) := Desk.serve d k (·.checkRelease h view address caller)
      let b := body.run d h
      match b.outcome with
      | none => b.afterEffects effects
      | some outcome =>
        (((next (some outcome)).run b.desk b.host).after b.trace).afterEffects effects
  | .enter view index body next, d, h =>
    match Desk.current? d with
    | none => (next none).run d h
    | some (k, s) =>
      let g := s.calls.guard (Monitor.entryCall (h.machine view) index)
      let b := body.run (Desk.update d k (·.enterEntry h view index)) h
      match b.outcome with
      | none => { b with desk := Desk.update b.desk k (·.abandon g) }
      | some outcome =>
        let (d, effects) := Desk.serve b.desk k (·.leaveEntry b.host view index g outcome)
        (((next (some outcome)).run d b.host).afterEffects effects).after b.trace
  | .native view index body next, d, h =>
    match Desk.current? d with
    | none => (next none).run d h
    | some (k, s) =>
      let m := h.machine view
      let g := s.calls.guard (.native m.handle index)
      let d := Desk.update d k (·.enterNative h view index)
      match (s.enterNative h view index).handler? m.handle with
      | none =>
        let outcome := .failed .noCallback
        (next (some outcome)).run (Desk.update d k (·.leaveNative g outcome)) h
      | some handler =>
        let b := (body handler).run d h
        match b.outcome with
        | none => { b with desk := Desk.update b.desk k (·.abandon g) }
        | some outcome =>
          ((next (some outcome)).run (Desk.update b.desk k (·.leaveNative g outcome))
            b.host).after b.trace
  | .guarded body next, d, h =>
    let b := body.run d h
    ((next b.outcome).run b.desk b.host).after b.trace
  | .request b next, d, h =>
    let (reply, d) := Desk.answer d h b
    (next reply).run d h

end Program

end Postmortem
