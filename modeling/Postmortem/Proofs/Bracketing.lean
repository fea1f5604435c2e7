import Postmortem.Proofs.Course

/-!
# Calls bracket the open calls

Hosts and scripts call each other to any depth, destroy machines, tell of faults and open calls that
nobody ends. Around every call the open calls are the same all the while.

* `Program.Bracketed`: what a call is to leave of the open calls, and what it hands on.
* `Program.calls_bracketed`: every call of every run does.
* `Program.Tells.calls_eq`: a program that leaves no call open leaves the open calls as they were.
-/

namespace Postmortem

namespace Program

open Monitor

variable {ν : Type}

/-- A run comes to a call, with a monitor and a host. It opens the call with one deed, runs the body
and ends the call with another. -/
structure Bracketed (p : Lone ν) (start : Monitor) (host : Host) (past : List Event) (s : Monitor)
    (h : Host) (call : Call) (opening : Deed) (closing : Outcome → Deed) (body : Lone ν)
    (next : Option Outcome → Lone ν) : Prop where
  begins : Reaches p start host (past ++ [⟨opening, h⟩]) (.before body) (s.perform h opening) h
  /-- While the body begins, the call is on top of the calls that were open before it. -/
  opened : (s.perform h opening).calls.calls = s.calls.calls ++ [call]
  /-- After the body the same calls are open as before it, and the host goes on with its outcome. -/
  returns : ∀ outcome d h' trace,
    body.run (s.perform h opening) h = ⟨some outcome, d, h', trace⟩ →
    (d.perform h' (closing outcome)).calls = s.calls ∧
    ∃ inside, Reaches p start host (past ++ (⟨opening, h⟩ :: inside ++ [⟨closing outcome, h'⟩]))
      (.before (next (some outcome))) (d.perform h' (closing outcome)) h'
  /-- So are they where the body panics. -/
  unwound : ∀ d h' trace, body.run (s.perform h opening) h = ⟨none, d, h', trace⟩ →
    (d.perform h' (.abandoned (s.calls.guard call))).calls = s.calls

/-- Calls that are open when a run starts are open when it ends. -/
theorem calls_prefix_run {p : Lone ν} {s d : Monitor} {h h' : Host} {outcome : Option Outcome}
    {trace : List (Effect ⊕ ν)} (ran : p.run s h = ⟨outcome, d, h', trace⟩) :
    s.calls.calls <+: d.calls.calls := by
  have told := tells_run p s h
  rw [ran] at told
  exact Tells.calls_prefix told

/-- **Calls bracket the open calls.** A call begins its body with itself on top of what was open,
and leaves just that open, whatever the body did. What it hands on is the outcome of the body. The
body of a native is what the handler of its machine does, and a failure where there is no
handler. -/
theorem calls_bracketed {p : Lone ν} {start s : Monitor} {host h : Host} {past : List Event}
    (view : Nat) (index : Int32) (next : Option Outcome → Lone ν) :
    let m := h.machine view
    (∀ body, Reaches p start host past (.before (.enter view index body next)) s h →
      Bracketed p start host past s h (.entry m.handle index m.registers.cip m.registers.frm)
        (.enteredEntry view index) (.leftEntry view index (entryGuard s h view index)) body next) ∧
    ∀ body, Reaches p start host past (.before (.native view index body next)) s h →
      Bracketed p start host past s h (.native m.handle index) (.enteredNative view index)
        (.leftNative (nativeGuard s h view index))
        (((s.enterNative h view index).handler? m.handle).elim (.done (.failed .noCallback)) body)
        next := by
  intro m
  constructor
  · intro body way
    refine ⟨way.trans (.inEntry view index (.here ..)), rfl, ?_, ?_⟩
    · intro outcome d h' trace ran
      obtain ⟨inside, ended⟩ := reaches_over_iff.mpr ⟨trace, ran⟩
      have closed : (d.leaveEntry h' view index (entryGuard s h view index) outcome).1.calls =
          s.calls := by
        rw [leaveEntry_calls, drop_enterEntry (calls_prefix_run ran)]
      exact ⟨closed, inside, way.trans (.entry view index ended (.here ..))⟩
    · intro d h' trace ran
      exact drop_enterEntry (calls_prefix_run ran)
  · intro body way
    refine ⟨way.trans (.inNative view index (.here ..)), rfl, ?_, ?_⟩
    · intro outcome d h' trace ran
      obtain ⟨inside, ended⟩ := reaches_over_iff.mpr ⟨trace, ran⟩
      have closed : (d.leaveNative (nativeGuard s h view index) outcome).calls = s.calls := by
        rw [leaveNative_calls, drop_enterNative (calls_prefix_run ran)]
      exact ⟨closed, inside, way.trans (.native view index ended (.here ..))⟩
    · intro d h' trace ran
      exact drop_enterNative (calls_prefix_run ran)

/-- What the handler of a native does: it opens a call that it never ends, has its machine
destroyed, and fails behind an entry point that does much the same. -/
def untidy : Lone Unit :=
  .tell (.leaked (.native 7 7)) <| .tell (.destroyed 1) <|
    .enter 0 5
      (.tell (.leaked (.entry 8 0 0 0)) <| .raise 0 5 .general fun _ => .done (.failed .general))
      fun _ => .done (.failed .nativeFailed)

/-- An entry point whose script runs a native with an untidy handler. -/
def untidyNative : Lone Unit :=
  .enter 0 0 (.native 0 3 (fun _ => untidy) fun _ => .done (.returned 4)) fun outcome =>
    .done (outcome.getD (.returned 0))

theorem calls_bracketed_untidyNative :
    let s := Monitor.bare
    let h := Host.bare
    let inside := s.enterEntry h 0 0
    let script : Lone Unit := .native 0 3 (fun _ => untidy) fun _ => .done (.returned 4)
    Reaches untidyNative s h [] (.before untidyNative) s h ∧
      Bracketed untidyNative s h [] s h (.entry 1 0 0 0) (.enteredEntry 0 0)
        (.leftEntry 0 0 ⟨.entry 1 0 0 0, 1⟩) script
        (fun outcome => .done (outcome.getD (.returned 0))) ∧
      Reaches untidyNative s h [⟨.enteredEntry 0 0, h⟩] (.before script) inside h ∧
      (untidy.run (inside.enterNative h 0 3) h).desk.calls.depth = 3 ∧
      Bracketed untidyNative s h [⟨.enteredEntry 0 0, h⟩] inside h (.native 1 3)
        (.enteredNative 0 3) (.leftNative ⟨.native 1 3, 2⟩) untidy
        fun _ => .done (.returned 4) := by
  intro s h inside script
  have outer : Reaches untidyNative s h [] (.before untidyNative) s h := .here ..
  have inner : Reaches untidyNative s h [⟨.enteredEntry 0 0, h⟩] (.before script) inside h :=
    .inEntry 0 0 (.here ..)
  exact ⟨outer, (calls_bracketed 0 0 _).1 _ outer, inner, by decide +kernel,
    (calls_bracketed 0 3 _).2 _ inner⟩

/-! ## Programs that end every call -/

/-- Opens no call without a guard. -/
def EndsCalls : Lone ν → Prop
  | .done _ | .panic => True
  | .note _ next | .change _ next => next.EndsCalls
  | .inspect next => ∀ s h, (next (some s) h).EndsCalls
  | .tell n next => (∀ call, n ≠ .leaked call) ∧ next.EndsCalls
  | .raise _ _ _ next => ∀ verdict, (next (some verdict)).EndsCalls
  | .release _ _ _ body next | .enter _ _ body next =>
    body.EndsCalls ∧ ∀ outcome, (next (some outcome)).EndsCalls
  | .native _ _ body next =>
    (∀ handler, (body handler).EndsCalls) ∧ ∀ outcome, (next (some outcome)).EndsCalls
  | .guarded body next => body.EndsCalls ∧ ∀ outcome, (next outcome).EndsCalls
  | .request b _ => b.elim

theorem EndsCalls.handled {body : String → Lone ν} (hb : ∀ handler, (body handler).EndsCalls)
    (s : Monitor) (h : Host) (view : Nat) : (handled s h view body).EndsCalls := by
  unfold Program.handled
  cases s.handler? (h.machine view).handle with
  | none => trivial
  | some handler => exact hb handler

theorem take_calls_of_not_leaked {n : Notice} (guarded : ∀ call, n ≠ .leaked call) (s : Monitor)
    (h : Host) : (s.take h n).1.calls = s.calls := by
  cases n with
  | leaked call => exact absurd rfl (guarded call)
  | _ => rfl

/-- A program that opens no call without a guard leaves the open calls as they were. -/
theorem Tells.calls_eq {p : Lone ν} {s : Monitor} {h : Host} {r : Run Monitor ν} {t : Story}
    (told : Tells p s h r t) (hp : p.EndsCalls) : r.desk.calls = s.calls := by
  induction told with
  | done | panic => rfl
  | note n _ ih => exact ih hp
  | change f _ ih => exact ih hp
  | inspect _ ih => exact ih (hp _ _)
  | tell n _ ih =>
    have later := ih hp.2
    rwa [take_calls_of_not_leaked hp.1] at later
  | raise view index fault _ ih =>
    have later := ih (hp _)
    rwa [hear_calls] at later
  | releasePanicked view address caller _ ih =>
    have inside := ih hp.1
    rwa [checkRelease_calls] at inside
  | release view address caller _ _ ihb ihn =>
    have inside := ihb hp.1
    have later := ihn (hp.2 _)
    rw [checkRelease_calls] at inside
    exact later.trans inside
  | entryPanicked view index inner _ => exact drop_enterEntry inner.calls_prefix
  | entry view index inner _ _ ihn =>
    have later := ihn (hp.2 _)
    rwa [leaveEntry_calls, drop_enterEntry inner.calls_prefix] at later
  | nativePanicked view index inner _ => exact drop_enterNative inner.calls_prefix
  | native view index inner _ _ ihn =>
    have later := ihn (hp.2 _)
    rwa [leaveNative_calls, drop_enterNative inner.calls_prefix] at later
  | guarded _ _ ihb ihn => exact (ihn (hp.2 _)).trans (ihb hp.1)

/-- What a run comes to opens no call without a guard if the whole does not. -/
theorem Reaches.endsCalls {p q : Lone ν} {s t : Monitor} {h g : Host} {past : List Event}
    (way : Reaches p s h past (.before q) t g) (hp : p.EndsCalls) : q.EndsCalls := by
  generalize hw : Stand.before q = w at way
  induction way with
  | here =>
    cases hw
    exact hp
  | done | panic | releasePanicked | entryPanicked | nativePanicked => cases hw
  | note n _ ih => exact ih hp hw
  | change f _ ih => exact ih hp hw
  | inspect _ ih => exact ih (hp _ _) hw
  | tell n _ ih => exact ih hp.2 hw
  | raise view index fault _ ih => exact ih (hp _) hw
  | inRelease view address caller _ ih =>
    cases hw
    exact ih hp.1 rfl
  | inEntry view index _ ih =>
    cases hw
    exact ih hp.1 rfl
  | inNative view index _ ih =>
    cases hw
    exact ih (EndsCalls.handled hp.1 _ _ view) rfl
  | inGuarded _ ih =>
    cases hw
    exact ih hp.1 rfl
  | release view address caller _ _ _ ihn => exact ihn (hp.2 _) hw
  | entry view index _ _ _ ihn => exact ihn (hp.2 _) hw
  | native view index _ _ _ ihn => exact ihn (hp.2 _) hw
  | guarded _ _ _ ihn => exact ihn (hp.2 _) hw

end Program

end Postmortem
