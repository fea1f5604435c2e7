import Postmortem.Program.Run
import Postmortem.Proofs.Operations

/-!
# Runs under one monitor

A program run against a monitor alone: one equation for each of its steps in which the monitor
takes part.

* `Program.induction_alone`: induction on a program that makes no requests.
* `Program.drop_enterEntry` and `Program.drop_enterNative`: the end of a call leaves exactly the
  calls that were open before it.
-/

namespace Postmortem

theorem CallStack.drop_guard {s t : CallStack} {c : Call} (h : (s.push c).calls <+: t.calls) :
    t.drop (s.guard c) = s := by
  obtain ⟨above, ht⟩ := h
  have here : t.calls = s.calls ++ (c :: above) := by simp [← ht]
  simp [drop, guard, depth, here]

namespace Run

variable {σ ν : Type} (r : Run σ ν)

@[simp] theorem desk_after (trace : List (Effect ⊕ ν)) : (r.after trace).desk = r.desk := rfl

@[simp] theorem desk_afterEffects (es : List Effect) : (r.afterEffects es).desk = r.desk := rfl

end Run

/-- A program run against a monitor alone, which makes no requests. -/
abbrev Lone (ν : Type) : Type := Program Empty Empty ν

/-- A host with one machine, which has no code, no file and no symbols but runs natives. -/
def Host.bare : Host where
  machine _ :=
    { handle := 1, image := ⟨⟨0, 0⟩, #[]⟩, registers := ⟨0, 0, 0, 0, 0, 0, 0⟩,
      handler := some "natives" }

/-- A monitor with nothing set otherwise. -/
def Monitor.bare : Monitor := .start {} .system {}

namespace Program

variable {ν : Type}

/-- The guard of an entry point that is run now. -/
def entryGuard (s : Monitor) (h : Host) (view : Nat) (index : Int32) : Guard :=
  s.calls.guard (Monitor.entryCall (h.machine view) index)

def nativeGuard (s : Monitor) (h : Host) (view : Nat) (index : Int32) : Guard :=
  s.calls.guard (.native (h.machine view).handle index)

/-- What a machine's handler does for a native. Without a handler the call fails at once. -/
def handled (s : Monitor) (h : Host) (view : Nat) (body : String → Lone ν) : Lone ν :=
  (s.handler? (h.machine view).handle).elim (.done (.failed .noCallback)) body

/-- Induction on a program without requests. A native is taken with what its machine does for it,
so that a missing handler is no case of its own. -/
@[elab_as_elim]
theorem induction_alone {motive : Lone ν → Prop}
    (done : ∀ outcome, motive (.done outcome))
    (panic : motive .panic)
    (note : ∀ n next, motive next → motive (.note n next))
    (change : ∀ f next, motive next → motive (.change f next))
    (inspect : ∀ next, (∀ s h, motive (next s h)) → motive (.inspect next))
    (tell : ∀ n next, motive next → motive (.tell n next))
    (raise : ∀ view index fault next, (∀ v, motive (next v)) →
      motive (.raise view index fault next))
    (release : ∀ view address caller body next, motive body → (∀ o, motive (next o)) →
      motive (.release view address caller body next))
    (enter : ∀ view index body next, motive body → (∀ o, motive (next o)) →
      motive (.enter view index body next))
    (native : ∀ view index body next, (∀ s h, motive (handled s h view body)) →
      (∀ o, motive (next o)) → motive (.native view index body next))
    (guarded : ∀ body next, motive body → (∀ o, motive (next o)) → motive (.guarded body next))
    (p : Lone ν) : motive p := by
  induction p with
  | done outcome => exact done outcome
  | panic => exact panic
  | note n next ih => exact note n next ih
  | change f next ih => exact change f next ih
  | inspect next ih => exact inspect next ih
  | tell n next ih => exact tell n next ih
  | raise view index fault next ih => exact raise view index fault next ih
  | release view address caller body next ihb ihn =>
    exact release view address caller body next ihb ihn
  | enter view index body next ihb ihn => exact enter view index body next ihb ihn
  | native view index body next ihb ihn =>
    refine native view index body next (fun s h => ?_) ihn
    unfold handled
    cases s.handler? (h.machine view).handle with
    | none => exact done (.failed .noCallback)
    | some handler => exact ihb handler
  | guarded body next ihb ihn => exact guarded body next ihb ihn
  | request b next ih => exact b.elim

section equations

variable (s : Monitor) (h : Host)

theorem run_release (view : Nat) (address : Cell) (caller : UInt64) (body : Lone ν)
    (next : Option Outcome → Lone ν) :
    (release view address caller body next).run s h =
      match body.run (s.checkRelease h view address caller).1 h with
      | ⟨none, d, h', trace⟩ =>
        Run.afterEffects ⟨none, d, h', trace⟩ (s.checkRelease h view address caller).2
      | ⟨some outcome, d, h', trace⟩ =>
        (((next (some outcome)).run d h').after trace).afterEffects
          (s.checkRelease h view address caller).2 := by
  rcases hb : body.run (s.checkRelease h view address caller).1 h with ⟨outcome, d, h', trace⟩
  cases outcome <;> simp only [run, Desk.current?, Desk.serve, hb]

theorem run_enter (view : Nat) (index : Int32) (body : Lone ν) (next : Option Outcome → Lone ν) :
    (enter view index body next).run s h =
      match body.run (s.enterEntry h view index) h with
      | ⟨none, d, h', trace⟩ => ⟨none, d.abandon (entryGuard s h view index), h', trace⟩
      | ⟨some outcome, d, h', trace⟩ =>
        let left := d.leaveEntry h' view index (entryGuard s h view index) outcome
        (((next (some outcome)).run left.1 h').afterEffects left.2).after trace := by
  rcases hb : body.run (s.enterEntry h view index) h with ⟨outcome, d, h', trace⟩
  cases outcome <;> simp only [run, Desk.current?, Desk.serve, Desk.update, hb, entryGuard]

theorem run_native (view : Nat) (index : Int32) (body : String → Lone ν)
    (next : Option Outcome → Lone ν) :
    (native view index body next).run s h =
      match (handled (s.enterNative h view index) h view body).run
        (s.enterNative h view index) h with
      | ⟨none, d, h', trace⟩ => ⟨none, d.abandon (nativeGuard s h view index), h', trace⟩
      | ⟨some outcome, d, h', trace⟩ =>
        ((next (some outcome)).run (d.leaveNative (nativeGuard s h view index) outcome)
          h').after trace := by
  simp only [run, Desk.current?, Desk.serve, Desk.update, nativeGuard, handled]
  cases (s.enterNative h view index).handler? (h.machine view).handle with
  | none => rfl
  | some handler =>
    rcases hb : (body handler).run (s.enterNative h view index) h with ⟨outcome, d, h', trace⟩
    cases outcome <;> simp only [Option.elim, hb]

end equations

/-- The end of a call leaves what was open before it, whatever was left open above it. -/
theorem drop_enterEntry {s d : Monitor} {h : Host} {view : Nat} {index : Int32}
    (hp : (s.enterEntry h view index).calls.calls <+: d.calls.calls) :
    d.calls.drop (entryGuard s h view index) = s.calls :=
  CallStack.drop_guard hp

theorem drop_enterNative {s d : Monitor} {h : Host} {view : Nat} {index : Int32}
    (hp : (s.enterNative h view index).calls.calls <+: d.calls.calls) :
    d.calls.drop (nativeGuard s h view index) = s.calls :=
  CallStack.drop_guard hp

end Program

end Postmortem
