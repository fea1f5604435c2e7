import Postmortem.Proofs.Reports

/-!
# Calls that look on

Some calls to a monitor only have something written or shown: notices of traps, backtraces, and
releases of memory of a machine that the monitor has seen. They may be put in anywhere in a program.
Marks in the trace tell them from what the program does itself.

* `Watch`: calls that look on, one after another. A release among them may look on itself.
* `Watch.run_before`: a watch leaves its trace and changes nothing else.
* `Noted.outside`: what a trace shows outside of the calls that look on.
* `Monitor.lines_checkRelease_iff`: a release is complained of just outside the heap.
-/

namespace Postmortem

open Effect

namespace Monitor

/-- Something is written about the host or the machines, and that is all. -/
def Notice.Looks : Notice → Prop
  | .crashed _ | .interrupted _ | .showScript | .showSystem _ => True
  | .created _ | .destroyed _ | .leaked _ => False

theorem take_of_looks {n : Notice} (looks : n.Looks) (s : Monitor) (host : Host) :
    (s.take host n).1 = s := by
  cases n with
  | crashed | interrupted | showScript | showSystem => rfl
  | created | destroyed | leaked => cases looks

/-- The machine of this view is in the registry. -/
def HasSeen (s : Monitor) (host : Host) (view : Nat) : Prop :=
  (s.instance? (host.machine view).handle).isSome

theorem checkRelease_of_hasSeen {s : Monitor} {host : Host} {view : Nat}
    (seen : s.HasSeen host view) (address : Cell) (caller : UInt64) :
    (s.checkRelease host view address caller).1 = s := by
  have same : s.observe host view = s := by rw [observe, Registry.observe_of_contains seen]
  unfold checkRelease
  rw [same]
  split <;> rfl

/-- Memory below the heap is complained of, and memory at the stack or above it. -/
theorem lines_checkRelease_iff (s : Monitor) (host : Host) (view : Nat) (address : Cell)
    (caller : UInt64) :
    (∃ text, .line text ∈ (s.checkRelease host view address caller).2) ↔
      address < (host.machine view).registers.hlw ∨
        (host.machine view).registers.stk ≤ address := by
  have outside : ¬ (host.machine view).registers.heap.Contains address ↔
      address < (host.machine view).registers.hlw ∨
        (host.machine view).registers.stk ≤ address := by
    rw [Int32.lt_iff_toInt_lt, Int32.le_iff_toInt_le]
    simp only [Span.Contains, Registers.heap]
    omega
  rw [← outside, checkRelease]
  by_cases inside : (host.machine view).registers.heap.Contains address
  · simp [inside]
  · simp only [inside, if_false, not_false_eq_true, iff_true]
    exact ⟨_, List.mem_append_left _ (List.mem_map_of_mem List.mem_cons_self)⟩

end Monitor

/-! ## Watches -/

/-- Notes of a program, and marks around the calls that are put into it. -/
inductive Noted (ν : Type) where
  | plain (n : ν)
  | begins
  /-- What a call answers. -/
  | saw (b : Backtrace)
  /-- The memory is released now. -/
  | releases
  | ends
  deriving DecidableEq

/-- Calls that look on, one after another. -/
inductive Watch where
  | nothing
  | notice (n : Monitor.Notice) (looks : n.Looks) (rest : Watch)
  /-- The script backtrace is asked for. -/
  | backtrace (rest : Watch)
  /-- The release itself looks on and then has this outcome. -/
  | release (view : Nat) (address : Cell) (caller : UInt64) (inside : Watch) (outcome : Outcome)
      (rest : Watch)

namespace Watch

variable {ν : Type}

/-- The calls of a watch, and a program after them. -/
def before : Watch → Lone (Noted ν) → Lone (Noted ν)
  | nothing, p => p
  | notice n _ rest, p => .note .begins (.tell n (.note .ends (rest.before p)))
  | backtrace rest, p =>
    .note .begins (.inspect fun s h =>
      .note (.saw (s.elim [] (·.backtrace h))) (.note .ends (rest.before p)))
  | release view address caller inside outcome rest, p =>
    .note .begins (.release view address caller (.note .releases (inside.before (.done outcome)))
      fun _ => .note .ends (rest.before p))

/-- What a watch leaves in the trace. -/
def trace (s : Monitor) (h : Host) : Watch → List (Effect ⊕ Noted ν)
  | nothing => []
  | notice n _ rest =>
    .inr .begins :: (s.take h n).2.map .inl ++ .inr .ends :: rest.trace s h
  | backtrace rest => [.inr .begins, .inr (.saw (s.backtrace h)), .inr .ends] ++ rest.trace s h
  | release view address caller inside _ rest =>
    .inr .begins :: (s.checkRelease h view address caller).2.map .inl ++
      .inr .releases :: inside.trace s h ++ .inr .ends :: rest.trace s h

/-- Only machines that the monitor has seen have memory released. -/
def Seen (s : Monitor) (h : Host) : Watch → Prop
  | nothing => True
  | notice _ _ rest | backtrace rest => rest.Seen s h
  | release view _ _ inside _ rest => s.HasSeen h view ∧ inside.Seen s h ∧ rest.Seen s h

/-- A watch leaves its trace, and a program after it runs as if there had been no watch. -/
theorem run_before {w : Watch} {s : Monitor} {h : Host} (seen : w.Seen s h)
    (p : Lone (Noted ν)) : (w.before p).run s h = (p.run s h).after (w.trace s h) := by
  induction w generalizing p with
  | nothing => rfl
  | notice n looks rest ih =>
    simp only [before, Program.run, Desk.tell, Desk.current?, Desk.serve,
      Monitor.take_of_looks looks, ih seen]
    simp [Run.after, Run.afterEffects, trace]
  | backtrace rest ih =>
    simp only [before, Program.run, Desk.monitor?, Desk.current?, Option.map_some, Option.elim_some,
      ih seen]
    simp [Run.after, trace]
  | release view address caller inside outcome rest ihi ihr =>
    obtain ⟨known, seenInside, seenRest⟩ := seen
    rw [before, Program.run, Program.run_release, Monitor.checkRelease_of_hasSeen known]
    simp only [Program.run, ihi seenInside]
    simp [Run.after, Run.afterEffects, trace, ihr seenRest]

/-- All that a watch does is to write and to ask for the host's stack. -/
theorem asides (w : Watch) {s : Monitor} {h : Host} {e : Effect}
    (he : (.inl e : Effect ⊕ Noted ν) ∈ w.trace s h) : e.isAside s.settings.marker := by
  induction w with
  | nothing => cases he
  | notice n looks rest ih =>
    have split : e ∈ (s.take h n).2 ∨ (.inl e : Effect ⊕ Noted ν) ∈ rest.trace s h := by
      simpa [trace] using he
    exact split.elim (s.asides_take h n e) ih
  | backtrace rest ih => exact ih (by simpa [trace] using he)
  | release view address caller inside outcome rest ihi ihr =>
    have split : e ∈ (s.checkRelease h view address caller).2 ∨
        (.inl e : Effect ⊕ Noted ν) ∈ inside.trace s h ∨
          (.inl e : Effect ⊕ Noted ν) ∈ rest.trace s h := by
      simpa [trace] using he
    rcases split with checked | within | later
    · exact s.asides_checkRelease h view address caller e checked
    · exact ihi within
    · exact ihr later

end Watch

/-! ## What a trace shows outside of them -/

/-- A command is started or the process is ended. -/
def Effect.isAct (e : Effect) : Bool := e.isCommand || e.isEnding

namespace Noted

variable {ν : Type}

/-- A trace without the calls that look on, and without the marks around them, when so many of these
calls are open at its start. -/
def outside : Nat → List (Effect ⊕ Noted ν) → List (Effect ⊕ ν)
  | _, [] => []
  | depth, .inr .begins :: later => outside (depth + 1) later
  | depth, .inr .ends :: later => outside (depth - 1) later
  | 0, .inl e :: later => .inl e :: outside 0 later
  | 0, .inr (.plain n) :: later => .inr n :: outside 0 later
  | depth, _ :: later => outside depth later

theorem outside_effects (es : List Effect) (later : List (Effect ⊕ Noted ν)) :
    outside 0 (es.map .inl ++ later) = es.map .inl ++ outside 0 later := by
  induction es with
  | nil => rfl
  | cons e es ih => simp [outside, ih]

/-- What calls that look on have written is left out. -/
theorem outside_effects_within (depth : Nat) (es : List Effect) (later : List (Effect ⊕ Noted ν)) :
    outside (depth + 1) (es.map .inl ++ later) = outside (depth + 1) later := by
  induction es with
  | nil => rfl
  | cons e es ih => simpa [outside] using ih

/-- A watch is left out as a whole. -/
theorem outside_watch (w : Watch) (s : Monitor) (h : Host) (depth : Nat)
    (later : List (Effect ⊕ Noted ν)) :
    outside depth (w.trace s h ++ later) = outside depth later := by
  induction w generalizing depth later with
  | nothing => rfl
  | notice n looks rest ih =>
    simp only [Watch.trace, List.append_assoc, List.cons_append, outside, outside_effects_within,
      ih, Nat.add_sub_cancel]
  | backtrace rest ih =>
    simp only [Watch.trace, List.cons_append, List.nil_append, outside, ih, Nat.add_sub_cancel]
  | release view address caller inside outcome rest ihi ihr =>
    simp only [Watch.trace, List.append_assoc, List.cons_append, outside, outside_effects_within,
      ihi, ihr, Nat.add_sub_cancel]

/-- A trace with calls in it that look on, and the trace without them. -/
structure Extends (long : List (Effect ⊕ Noted ν)) (short : List (Effect ⊕ ν)) : Prop where
  outside : ∀ later, outside 0 (long ++ later) = short ++ outside 0 later
  /-- The calls that look on do not act. -/
  acts : (long.filterMap Sum.getLeft?).filter isAct = (short.filterMap Sum.getLeft?).filter isAct

namespace Extends

variable {long long' : List (Effect ⊕ Noted ν)} {short short' : List (Effect ⊕ ν)}

theorem nil : Extends ([] : List (Effect ⊕ Noted ν)) ([] : List (Effect ⊕ ν)) :=
  ⟨fun _ => rfl, rfl⟩

theorem append (he : Extends long short) (he' : Extends long' short') :
    Extends (long ++ long') (short ++ short') where
  outside later := by simp only [List.append_assoc, he.outside, he'.outside]
  acts := by simp only [List.filterMap_append, List.filter_append, he.acts, he'.acts]

theorem effects (es : List Effect) :
    Extends (es.map .inl : List (Effect ⊕ Noted ν)) (es.map .inl : List (Effect ⊕ ν)) where
  outside := outside_effects es
  acts := by simp [List.filterMap_map, Function.comp_def]

theorem plain (n : ν) : Extends [.inr (.plain n)] [.inr n] := ⟨fun _ => rfl, rfl⟩

theorem not_isAct_of_isAside {marker : String} {e : Effect} (aside : e.isAside marker) :
    ¬ e.isAct := by
  cases e with
  | line | unwound => exact nofun
  | started | ended | judged => cases aside

theorem watch (w : Watch) (s : Monitor) (h : Host) :
    Extends (w.trace s h : List (Effect ⊕ Noted ν)) [] where
  outside := outside_watch w s h 0
  acts := by
    rw [List.filterMap_nil, List.filter_nil, List.filter_eq_nil_iff]
    intro e he
    obtain ⟨entry, hentry, shown⟩ := List.mem_filterMap.mp he
    obtain rfl := Sum.getLeft?_eq_some_iff.mp shown
    exact not_isAct_of_isAside (w.asides hentry)

end Extends

end Noted

end Postmortem
