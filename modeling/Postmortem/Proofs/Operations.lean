import Postmortem.Monitor.Calls

/-!
# One operation at a time

What each operation of a monitor does to the open calls and to the memory of a fault that was
judged, and which of its effects are judgements.

* `Monitor.hear_repeated_iff`: a telling is turned away exactly while a judged fault is on its way
  out.
* `Monitor.judgements_leaveEntry`: the end of an entry point judges exactly a failure that no
  judged fault precedes.
-/

namespace Postmortem

namespace Effect

def isJudgement : Effect → Bool
  | judged _ _ _ _ => true
  | _ => false

def judgements (es : List Effect) : List Effect := es.filter isJudgement

@[simp] theorem judgements_nil : judgements [] = [] := rfl

@[simp] theorem judgements_append (es fs : List Effect) :
    judgements (es ++ fs) = judgements es ++ judgements fs := List.filter_append ..

@[simp] theorem judgements_judged (owner : Handle) (index : Int32) (fault : Fault)
    (verdict : Verdict) (es : List Effect) :
    judgements (.judged owner index fault verdict :: es) =
      .judged owner index fault verdict :: judgements es :=
  List.filter_cons_of_pos rfl

end Effect

namespace Monitor

open Effect

@[simp] theorem judgements_say (s : Monitor) (texts : List String) :
    judgements (s.say texts) = [] := by
  simp [judgements, say, isJudgement]

@[simp] theorem judgements_sayBacktrace (s : Monitor) (host : Host) :
    judgements (s.sayBacktrace host) = [] := judgements_say ..

@[simp] theorem judgements_saySystem (s : Monitor) (trap : Option Trap) :
    judgements (s.saySystem trap) = [] := by
  have asked : judgements (s.askFrames trap) = [] := by
    unfold askFrames
    split <;> rfl
  simp [saySystem, asked]

@[simp] theorem judgements_sayHost (s : Monitor) (host : Host) (running idle : String) :
    judgements (s.sayHost host running idle) = [] := by
  unfold sayHost
  split <;> simp

@[simp] theorem judgements_report (s : Monitor) (host : Host) (m : Machine) (fault : Fault) :
    judgements (s.report host m fault) = [] := by
  have policy : judgements s.policy = [] := by
    unfold Monitor.policy
    split <;> split <;> simp [judgements, isJudgement, say]
  have backtrace :
      judgements (if fault.wantsBacktrace then s.sayBacktrace host else []) = [] := by
    split <;> simp
  simp [report, policy, backtrace]

theorem judgements_judge (s : Monitor) (host : Host) (view : Nat) (index : Int32)
    (fault : Fault) :
    judgements (s.judge host view index fault).2 =
      [.judged (host.machine view).handle index fault (s.verdict index fault)] := by
  by_cases h : s.verdict index fault = .suppressed <;> simp [judge, h]

/-! ## Observing -/

@[simp] theorem observe_calls (s : Monitor) (host : Host) (view : Nat) :
    (s.observe host view).calls = s.calls := rfl

@[simp] theorem observe_judged (s : Monitor) (host : Host) (view : Nat) :
    (s.observe host view).judged = s.judged := rfl

theorem take_judged (s : Monitor) (host : Host) (n : Notice) :
    (s.take host n).1.judged = s.judged := by
  cases n <;> rfl

theorem judgements_take (s : Monitor) (host : Host) (n : Notice) :
    judgements (s.take host n).2 = [] := by
  cases n <;> simp [take, crash, interrupt]

/-- A notice leaves every open call open. -/
theorem calls_prefix_take (s : Monitor) (host : Host) (n : Notice) :
    s.calls.calls <+: (s.take host n).1.calls.calls := by
  cases n with
  | leaked call => exact List.prefix_append ..
  | _ => exact List.prefix_refl _

@[simp] theorem checkRelease_calls (s : Monitor) (host : Host) (view : Nat) (address : Cell)
    (caller : UInt64) : (s.checkRelease host view address caller).1.calls = s.calls := by
  unfold checkRelease
  split <;> rfl

@[simp] theorem checkRelease_judged (s : Monitor) (host : Host) (view : Nat) (address : Cell)
    (caller : UInt64) : (s.checkRelease host view address caller).1.judged = s.judged := by
  unfold checkRelease
  split <;> rfl

@[simp] theorem judgements_checkRelease (s : Monitor) (host : Host) (view : Nat) (address : Cell)
    (caller : UInt64) : judgements (s.checkRelease host view address caller).2 = [] := by
  unfold checkRelease
  split <;> simp

/-! ## Telling of a fault -/

theorem verdict_ne_repeated (s : Monitor) (index : Int32) (fault : Fault) :
    s.verdict index fault ≠ .repeated := by
  unfold verdict
  repeat' split
  all_goals decide

theorem verdict_eq_suppressed_iff (s : Monitor) (index : Int32) (fault : Fault) :
    s.verdict index fault = .suppressed ↔ fault.isDetach index s.settings.detachIndex := by
  unfold verdict
  split
  · simp [*]
  · split <;> simp [*]

@[simp] theorem hear_calls (s : Monitor) (host : Host) (view : Nat) (index : Int32)
    (fault : Fault) : (s.hear host view index fault).2.1.calls = s.calls := by
  cases h : s.judged <;> simp [hear, judge, h]

/-- Whatever the answer, a judged fault is on its way out after a telling. -/
@[simp] theorem hear_judged (s : Monitor) (host : Host) (view : Nat) (index : Int32)
    (fault : Fault) : (s.hear host view index fault).2.1.judged = true := by
  cases h : s.judged <;> simp [hear, judge, h]

theorem hear_repeated_iff (s : Monitor) (host : Host) (view : Nat) (index : Int32)
    (fault : Fault) : (s.hear host view index fault).1 = .repeated ↔ s.judged = true := by
  cases h : s.judged
  · simp [hear, h, verdict_ne_repeated]
  · simp [hear, h]

/-- A telling that is turned away has no effect. -/
theorem hear_of_judged {s : Monitor} (h : s.judged = true) (host : Host) (view : Nat)
    (index : Int32) (fault : Fault) : (s.hear host view index fault).2.2 = [] := by
  simp [hear, h]

theorem judgements_hear {s : Monitor} (h : s.judged = false) (host : Host) (view : Nat)
    (index : Int32) (fault : Fault) :
    ∃ e, judgements (s.hear host view index fault).2.2 = [e] := by
  simp only [hear, observe_judged, h]
  exact ⟨_, judgements_judge ..⟩

/-! ## Calls -/

@[simp] theorem enterEntry_judged (s : Monitor) (host : Host) (view : Nat) (index : Int32) :
    (s.enterEntry host view index).judged = s.judged := rfl

@[simp] theorem enterNative_judged (s : Monitor) (host : Host) (view : Nat) (index : Int32) :
    (s.enterNative host view index).judged = s.judged := rfl

theorem enterEntry_calls_ne_nil (s : Monitor) (host : Host) (view : Nat) (index : Int32) :
    (s.enterEntry host view index).calls.calls ≠ [] := by
  simp [enterEntry, push]

theorem enterNative_calls_ne_nil (s : Monitor) (host : Host) (view : Nat) (index : Int32) :
    (s.enterNative host view index).calls.calls ≠ [] := by
  simp [enterNative, push]

@[simp] theorem abandon_judged (s : Monitor) (g : Guard) : (s.abandon g).judged = s.judged := rfl

theorem conclude_calls (s : Monitor) (host : Host) (view : Nat) (index : Int32)
    (outcome : Outcome) : (s.conclude host view index outcome).1.calls = s.calls := by
  cases outcome with
  | returned value => rfl
  | failed fault => cases h : s.judged <;> simp [conclude, judge, h]

@[simp] theorem leaveEntry_calls (s : Monitor) (host : Host) (view : Nat) (index : Int32)
    (g : Guard) (outcome : Outcome) :
    (s.leaveEntry host view index g outcome).1.calls = s.calls.drop g := by
  simp only [leaveEntry, settle, abandon, conclude_calls]

/-- A failure stays judged on its way out, as long as a call is left to pass through. -/
theorem leaveEntry_failed_judged (s : Monitor) (host : Host) (view : Nat) (index : Int32)
    (g : Guard) (fault : Fault) :
    (s.leaveEntry host view index g (.failed fault)).1.judged =
      !(s.calls.drop g).isEmpty := by
  have judged : (s.conclude host view index (.failed fault)).1.judged = true := by
    cases h : s.judged <;> simp [conclude, judge, h]
  simp only [leaveEntry, settle, abandon, judged, conclude_calls, Bool.true_and]

/-- Nothing is on its way out after the entry point that was the last call. -/
theorem leaveEntry_judged_of_idle {s : Monitor} {host : Host} {view : Nat} {index : Int32}
    {g : Guard} {outcome : Outcome}
    (idle : (s.leaveEntry host view index g outcome).1.calls.calls = []) :
    (s.leaveEntry host view index g outcome).1.judged = false := by
  cases outcome with
  | returned value => rfl
  | failed fault =>
    rw [leaveEntry_calls] at idle
    rw [leaveEntry_failed_judged, CallStack.isEmpty, idle]
    rfl

/-- As long as a call is open, a monitor remembers the failure of the entry point that has just
ended. -/
theorem leaveEntry_judged_of_open {s : Monitor} {g : Guard}
    (further : (s.calls.drop g).calls ≠ []) (host : Host) (view : Nat) (index : Int32)
    (fault : Fault) : (s.leaveEntry host view index g (.failed fault)).1.judged = true := by
  rw [leaveEntry_failed_judged]
  simpa [CallStack.isEmpty] using further

theorem leaveEntry_effects_of_judged {s : Monitor} (h : s.judged = true) (host : Host)
    (view : Nat) (index : Int32) (g : Guard) (fault : Fault) :
    (s.leaveEntry host view index g (.failed fault)).2 = [] := by
  simp [leaveEntry, conclude, h]

theorem judgements_leaveEntry {s : Monitor} (h : s.judged = false) (host : Host) (view : Nat)
    (index : Int32) (g : Guard) (fault : Fault) :
    ∃ e, judgements (s.leaveEntry host view index g (.failed fault)).2 = [e] := by
  simp only [leaveEntry, conclude, h]
  exact ⟨_, judgements_judge ..⟩

@[simp] theorem leaveNative_calls (s : Monitor) (g : Guard) (outcome : Outcome) :
    (s.leaveNative g outcome).calls = s.calls.drop g := by
  cases outcome <;> rfl

end Monitor

end Postmortem
