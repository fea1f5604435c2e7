import Postmortem.Proofs.Attribution
import Postmortem.Proofs.Reports

/-!
# What follows from a judgement

A fault is judged where a machine tells of it or where an entry point ends, unless it was judged
further in. What the host wants said and done about it follows at once and in one piece. No other
deed of a monitor starts a command or ends the process.

* `Charge.consequences`: what a fault has for consequences, from the settings alone.
* `Monitor.emitted`: what the deeds of a run do to the world outside, one after the other.
* `Program.effects_of_charges`: the effects of a run are the consequences of the faults that were
  judged in it, with nothing but marked lines and questions between them.
-/

namespace Postmortem

/-- A fault that is to be judged, with the machine it arose in and the backtrace at that moment. -/
structure Charge where
  machine : Machine
  index : Int32
  fault : Fault
  backtrace : Backtrace

namespace Charge

variable (c : Charge) (settings : Settings) (process : ProcessControl)

/-- A debugger detaches, by entering the script at the agreed index. -/
def IsDetach : Prop := c.fault = .badEntryPoint ∧ settings.detachIndex = some c.index

instance : Decidable (c.IsDetach settings) := inferInstanceAs (Decidable (_ ∧ _))

def verdict : Verdict :=
  if c.IsDetach settings then .suppressed else if settings.dieOnError then .abort else .goOn

/-- What is said about the fault, before the marker is put in front of every line. -/
def texts : List String :=
  c.fault.headline :: c.fault.details c.machine ++
    if c.fault.wantsBacktrace ∧ c.backtrace ≠ [] then
      "Script backtrace:" :: Backtrace.numbered (c.backtrace.map TraceEntry.text)
    else []

/-- Everything that is said and done about the fault, in order. -/
def consequences : List Effect :=
  if c.IsDetach settings then []
  else
    (c.texts.map fun text => .line (settings.marker ++ text)) ++
      (if settings.runOnError = "" then [] else [.started process settings.runOnError]) ++
      if settings.dieOnError then
        [.line (settings.marker ++ "Aborting..."), .ended process 1]
      else []

theorem isDetach_iff : c.fault.isDetach c.index settings.detachIndex ↔ c.IsDetach settings := by
  unfold Fault.isDetach IsDetach
  rw [Bool.and_eq_true, decide_eq_true_iff, decide_eq_true_iff]

theorem verdict_eq_suppressed_iff : c.verdict settings = .suppressed ↔ c.IsDetach settings := by
  unfold verdict
  split
  · simp [*]
  · split <;> simp [*]

theorem reports_consequences : (c.consequences settings process).countP Effect.isReport = 0 := by
  have lines : (c.texts.map fun text => Effect.line (settings.marker ++ text)).countP
      Effect.isReport = 0 := by
    rw [List.countP_map]
    exact List.countP_eq_zero.mpr fun _ _ => Bool.false_ne_true
  unfold consequences
  split
  · rfl
  · rw [List.countP_append, List.countP_append, lines]
    split <;> split <;> rfl

theorem said_of_mem_consequences {text : String}
    (said : .line text ∈ c.consequences settings process) :
    ∃ t, text = settings.marker ++ t := by
  unfold consequences at said
  split at said
  · cases said
  · rw [List.append_assoc, List.mem_append, List.mem_append] at said
    rcases said with report | command | ending
    · obtain ⟨t, _, same⟩ := List.mem_map.mp report
      exact ⟨t, (Effect.line.inj same).symm⟩
    · split at command <;> simp at command
    · split at ending
      · exact ⟨_, by simpa using ending⟩
      · cases ending

end Charge

namespace Effect

/-- A line with the marker in front of it, or a question to the host. -/
inductive Spoken (marker : String) : Effect → Prop
  | line (said : String) : Spoken marker (.line (marker ++ said))
  | unwound (trap : Option Trap) : Spoken marker (.unwound trap)

theorem Spoken.not_report {marker : String} {e : Effect} (spoken : e.Spoken marker) :
    ¬ e.isReport := by
  cases spoken <;> exact Bool.false_ne_true

end Effect

namespace Monitor

open Effect

/-! ## Deeds and their effects -/

/-- What one deed does to the world outside. -/
def emit (s : Monitor) (host : Host) : Deed → List Effect
  | .took n => (s.take host n).2
  | .heard view index fault => (s.hear host view index fault).2.2
  | .checkedRelease view address caller => (s.checkRelease host view address caller).2
  | .leftEntry view index g outcome => (s.leaveEntry host view index g outcome).2
  | .enteredEntry _ _ | .enteredNative _ _ | .leftNative _ _ | .abandoned _ => []

def emitted (s : Monitor) : List Event → List Effect
  | [] => []
  | e :: past => s.emit e.host e.deed ++ (s.perform e.host e.deed).emitted past

/-- The fault that a deed brings before the monitor, unless it was judged before. A machine that
tells of a fault is looked at first. -/
def charge? (s : Monitor) (host : Host) : Deed → Option Charge
  | .heard view index fault =>
    if s.judged then none
    else some ⟨host.machine view, index, fault, (s.observe host view).backtrace host⟩
  | .leftEntry view index _ (.failed fault) =>
    if s.judged then none else some ⟨host.machine view, index, fault, s.backtrace host⟩
  | _ => none

/-- Every fault that was judged, in order. -/
def charges (s : Monitor) : List Event → List Charge
  | [] => []
  | e :: past => (s.charge? e.host e.deed).toList ++ (s.perform e.host e.deed).charges past

/-- How many faults were judged and reported, which is all but those of a debugger that detaches. -/
def reports (s : Monitor) (past : List Event) : Nat :=
  (s.charges past).countP fun c => ¬ c.IsDetach s.settings

theorem emitted_append (s : Monitor) (past later : List Event) :
    s.emitted (past ++ later) = s.emitted past ++ (s.replay past).emitted later := by
  induction past generalizing s with
  | nil => rfl
  | cons e past ih => rw [List.cons_append, emitted, ih, emitted, replay_cons, List.append_assoc]

variable (s : Monitor) (host : Host)

/-! ## What is not a judgement -/

theorem spoken_say (texts : List String) : ∀ e ∈ s.say texts, e.Spoken s.settings.marker := by
  intro e he
  obtain ⟨text, _, rfl⟩ := List.mem_map.mp he
  exact .line text

theorem spoken_saySystem (trap : Option Trap) :
    ∀ e ∈ s.saySystem trap, e.Spoken s.settings.marker := by
  rw [saySystem, List.forall_mem_append]
  refine ⟨?_, s.spoken_say _⟩
  unfold askFrames
  cases s.services.unwinder with
  | given | captured => exact List.forall_mem_singleton.mpr (.unwound trap)
  | walking => exact List.forall_mem_nil _

theorem spoken_sayHost (running idle : String) :
    ∀ e ∈ s.sayHost host running idle, e.Spoken s.settings.marker := by
  unfold sayHost
  split
  · exact List.forall_mem_append.mpr ⟨s.spoken_say _, s.spoken_say _⟩
  · exact s.spoken_say _

theorem spoken_take (n : Notice) : ∀ e ∈ (s.take host n).2, e.Spoken s.settings.marker := by
  cases n with
  | created | destroyed | leaked => exact nofun
  | crashed trap | interrupted trap =>
    exact List.forall_mem_append.mpr ⟨s.spoken_sayHost host _ _, s.spoken_saySystem trap⟩
  | showScript => exact s.spoken_say _
  | showSystem trap => exact s.spoken_saySystem trap

theorem spoken_checkRelease (view : Nat) (address : Cell) (caller : UInt64) :
    ∀ e ∈ (s.checkRelease host view address caller).2, e.Spoken s.settings.marker := by
  unfold checkRelease
  split
  · exact nofun
  · exact List.forall_mem_append.mpr
      ⟨(s.observe host view).spoken_say _, (s.observe host view).spoken_saySystem none⟩

/-- A deed that judges no fault does nothing but speak. -/
theorem spoken_emit {d : Deed} (none : s.charge? host d = none) :
    ∀ e ∈ s.emit host d, e.Spoken s.settings.marker := by
  cases d with
  | took n => exact s.spoken_take host n
  | checkedRelease view address caller => exact s.spoken_checkRelease host view address caller
  | enteredEntry | enteredNative | leftNative | abandoned => exact nofun
  | heard view index fault =>
    cases judged : s.judged with
    | false => simp [charge?, judged] at none
    | true =>
      rw [emit, hear_of_judged judged]
      exact nofun
  | leftEntry view index g outcome =>
    cases outcome with
    | returned value => exact nofun
    | failed fault =>
      cases judged : s.judged with
      | false => simp [charge?, judged] at none
      | true =>
        rw [emit, leaveEntry_effects_of_judged judged]
        exact nofun

/-! ## Judgements -/

theorem sayBacktrace_eq : s.sayBacktrace host =
    s.say (if s.backtrace host ≠ [] then
      "Script backtrace:" :: Backtrace.numbered ((s.backtrace host).map TraceEntry.text)
      else []) := by
  unfold sayBacktrace Backtrace.lines
  cases s.backtrace host <;> rfl

theorem report_eq (m : Machine) (index : Int32) (fault : Fault) :
    s.report host m fault =
      s.say (Charge.texts ⟨m, index, fault, s.backtrace host⟩) ++ s.policy := by
  unfold report Charge.texts
  rw [sayBacktrace_eq]
  cases fault.wantsBacktrace <;> simp [say]

/-- A judgement has the consequences of the fault that is judged. -/
theorem judge_eq_consequences (view : Nat) (index : Int32) (fault : Fault) :
    let c : Charge := ⟨host.machine view, index, fault, s.backtrace host⟩
    s.verdict index fault = c.verdict s.settings ∧
      (s.judge host view index fault).2 =
        .judged c.machine.handle c.index c.fault (c.verdict s.settings) ::
          c.consequences s.settings s.services.process := by
  intro c
  have detached := c.isDetach_iff s.settings
  have verdict : s.verdict index fault = c.verdict s.settings := by
    unfold Monitor.verdict Charge.verdict
    simp only [← detached]
    rfl
  refine ⟨verdict, ?_⟩
  have suppressed := c.verdict_eq_suppressed_iff s.settings
  unfold judge
  simp only [verdict, suppressed]
  congr 1
  unfold Charge.consequences
  by_cases isDetach : c.IsDetach s.settings
  · rw [if_pos isDetach, if_pos isDetach]
  · rw [if_neg isDetach, if_neg isDetach, s.report_eq host _ index, List.append_assoc]
    rfl

/-- A deed that judges a fault does what follows from that, and nothing else. -/
theorem emit_of_charge {d : Deed} {c : Charge} (charged : s.charge? host d = some c) :
    s.emit host d = .judged c.machine.handle c.index c.fault (c.verdict s.settings) ::
      c.consequences s.settings s.services.process := by
  cases d with
  | heard view index fault =>
    obtain ⟨clear, ⟨⟩⟩ := Option.ite_none_left_eq_some.mp charged
    rw [emit, hear_of_clear (eq_false_of_ne_true clear)]
    exact ((s.observe host view).judge_eq_consequences host view index fault).2
  | leftEntry view index g outcome =>
    cases outcome with
    | returned value => cases charged
    | failed fault =>
      obtain ⟨clear, ⟨⟩⟩ := Option.ite_none_left_eq_some.mp charged
      rw [emit, leaveEntry_of_clear (eq_false_of_ne_true clear)]
      exact (s.judge_eq_consequences host view index fault).2
  | _ => cases charged

/-- A machine that tells of a fault hears what was made of it. -/
theorem hear_of_charge {view : Nat} {index : Int32} {fault : Fault} {c : Charge}
    (charged : s.charge? host (.heard view index fault) = some c) :
    (s.hear host view index fault).1 = c.verdict s.settings := by
  obtain ⟨clear, ⟨⟩⟩ := Option.ite_none_left_eq_some.mp charged
  have verdict := ((s.observe host view).judge_eq_consequences host view index fault).1
  rw [← observe_judged s host view] at clear
  rw [hear, if_neg clear]
  exact verdict

/-- Whatever a deed says has the marker in front of it. -/
theorem marked_emit (d : Deed) {text : String} (said : .line text ∈ s.emit host d) :
    s.settings.marker.toList <+: text.toList := by
  have marked (t : String) : s.settings.marker.toList <+: (s.settings.marker ++ t).toList := by
    rw [String.toList_append]
    exact List.prefix_append ..
  cases charged : s.charge? host d with
  | none =>
    cases s.spoken_emit host charged _ said with
    | line t => exact marked t
  | some c =>
    rw [s.emit_of_charge host charged] at said
    rcases List.mem_cons.mp said with judged | consequence
    · cases judged
    · obtain ⟨t, rfl⟩ := c.said_of_mem_consequences _ _ consequence
      exact marked t

theorem reports_emit (d : Deed) :
    (s.emit host d).countP isReport =
      (s.charge? host d).toList.countP fun c => ¬ c.IsDetach s.settings := by
  cases charged : s.charge? host d with
  | none =>
    exact List.countP_eq_zero.mpr fun e he => (s.spoken_emit host charged e he).not_report
  | some c =>
    have detached := c.verdict_eq_suppressed_iff s.settings
    rw [s.emit_of_charge host charged, List.countP_cons, Charge.reports_consequences]
    simp [isReport, detached]

/-! ## The deeds of a run -/

@[simp] theorem take_services (n : Notice) : (s.take host n).1.services = s.services := by
  cases n <;> rfl

@[simp] theorem perform_services (d : Deed) : (s.perform host d).services = s.services := by
  cases d with
  | took n => exact s.take_services host n
  | heard view index fault =>
    simp only [perform, hear]
    split <;> rfl
  | checkedRelease view address caller =>
    simp only [perform, checkRelease]
    split <;> rfl
  | leftEntry view index g outcome =>
    cases outcome with
    | returned value => rfl
    | failed fault =>
      simp only [perform, leaveEntry, conclude]
      split <;> rfl
  | leftNative g outcome => cases outcome <;> rfl
  | enteredEntry | enteredNative | abandoned => rfl

/-- No deed changes the services. -/
theorem replay_services (past : List Event) : (s.replay past).services = s.services := by
  induction past generalizing s with
  | nil => rfl
  | cons e past ih => rw [replay_cons, ih, perform_services]

theorem marked_emitted {past : List Event} {text : String} (said : .line text ∈ s.emitted past) :
    s.settings.marker.toList <+: text.toList := by
  induction past generalizing s with
  | nil => cases said
  | cons e past ih =>
    rcases List.mem_append.mp said with here | later
    · exact s.marked_emit e.host e.deed here
    · have marked := ih _ later
      rwa [perform_settings] at marked

theorem reports_emitted (past : List Event) :
    (s.emitted past).countP isReport = s.reports past := by
  induction past generalizing s with
  | nil => rfl
  | cons e past ih =>
    rw [emitted, List.countP_append, s.reports_emit, ih, reports, reports, charges,
      List.countP_append, perform_settings]

end Monitor

namespace Program

open Monitor Effect

variable {ν : Type} {p : Lone ν} {s t : Monitor} {h g : Host} {past : List Event}
  {outcome : Option Outcome} {w : Stand ν}

/-- What the deeds of a body did stands before what its call's end and the steps after it did. -/
theorem Reaches.emitted_body {body : Lone ν} {d : Monitor} {h' : Host} {later : List Event}
    (inner : Reaches body s h past w d h') :
    s.emitted (past ++ later) = s.emitted past ++ d.emitted later := by
  rw [emitted_append, inner.replay]

/-- The effects of a run are those of its deeds. By induction on the way to its end. -/
theorem Reaches.effects_eq (ended : Reaches p s h past (.over outcome) t g) :
    (p.run s h).effects = s.emitted past := by
  generalize hw : Stand.over outcome = w at ended
  induction ended generalizing outcome with
  | here | inRelease | inEntry | inNative | inGuarded => cases hw
  | done | panic => rfl
  | note n _ ih =>
    rw [run, Run.effects_after, ih hw]
    rfl
  | change f _ ih => exact ih hw
  | inspect _ ih => exact ih hw
  | tell n _ ih =>
    rw [emitted, perform, ← ih hw]
    exact Run.effects_afterEffects ..
  | raise view index fault _ ih =>
    rw [emitted, perform, ← ih hw]
    exact Run.effects_afterEffects ..
  | releasePanicked view address caller inner ih =>
    cases hw
    obtain ⟨trace, ran⟩ := inner.run_eq
    have inside := ih rfl
    rw [ran] at inside
    rw [run_release, ran, emitted, perform, ← inside]
    exact Run.effects_afterEffects ..
  | release view address caller inner _ ihb ihn =>
    obtain ⟨trace, ran⟩ := inner.run_eq
    have inside := ihb rfl
    rw [ran] at inside
    rw [run_release, ran, List.cons_append, emitted, perform, inner.emitted_body, ← inside,
      ← ihn hw, Run.effects_afterEffects, Run.effects_after]
    rfl
  | entryPanicked view index inner ih =>
    cases hw
    obtain ⟨trace, ran⟩ := inner.run_eq
    have inside := ih rfl
    rw [ran] at inside
    rw [run_enter, ran, List.cons_append, emitted, perform, inner.emitted_body, ← inside]
    exact (List.append_nil _).symm
  | entry view index inner _ ihb ihn =>
    obtain ⟨trace, ran⟩ := inner.run_eq
    have inside := ihb rfl
    rw [ran] at inside
    rw [run_enter, ran, List.cons_append, emitted, perform, inner.emitted_body, ← inside, emitted,
      perform, ← ihn hw, Run.effects_after, Run.effects_afterEffects]
    rfl
  | nativePanicked view index inner ih =>
    cases hw
    obtain ⟨trace, ran⟩ := inner.run_eq
    have inside := ih rfl
    rw [ran] at inside
    rw [run_native, ran, List.cons_append, emitted, perform, inner.emitted_body, ← inside]
    exact (List.append_nil _).symm
  | native view index inner _ ihb ihn =>
    obtain ⟨trace, ran⟩ := inner.run_eq
    have inside := ihb rfl
    rw [ran] at inside
    rw [run_native, ran, List.cons_append, emitted, perform, inner.emitted_body, ← inside, emitted,
      perform, ← ihn hw, Run.effects_after]
    rfl
  | guarded inner _ ihb ihn =>
    obtain ⟨trace, ran⟩ := inner.run_eq
    have inside := ihb rfl
    rw [ran] at inside
    rw [run, ran, inner.emitted_body, ← inside, ← ihn hw, Run.effects_after]
    rfl

/-- **What is done about faults follows from the faults that are judged, one by one.** A fault that
is judged has its consequences at once and in one piece, and a machine that told of it hears what
was made of it. No other deed does more than speak. So there are as many commands as reports, or
none, and as many endings as reports, or none, and the marker stands in front of every line. -/
theorem effects_of_charges (p : Lone ν) (s : Monitor) (h : Host) :
    let r := p.run s h
    ∃ past, Reaches p s h past (.over r.outcome) r.desk r.host ∧
      (∀ before e after, past = before ++ e :: after →
        let t := s.replay before
        let now := t.emit e.host e.deed
        r.effects = s.emitted before ++ now ++ (t.perform e.host e.deed).emitted after ∧
        (∀ c, t.charge? e.host e.deed = some c →
          now = .judged c.machine.handle c.index c.fault (c.verdict s.settings) ::
            c.consequences s.settings s.services.process ∧
          ∀ view index fault, e.deed = .heard view index fault →
            (t.hear e.host view index fault).1 = c.verdict s.settings) ∧
        (t.charge? e.host e.deed = none → ∀ f ∈ now, f.Spoken s.settings.marker)) ∧
      r.effects.countP isCommand = (if s.settings.runOnError = "" then 0 else s.reports past) ∧
      r.effects.countP isEnding = (if s.settings.dieOnError then s.reports past else 0) ∧
      ∀ text, .line text ∈ r.effects → s.settings.marker.toList <+: text.toList := by
  intro r
  have told := tells_run p s h
  obtain ⟨past, way⟩ := told.reaches
  have effects : r.effects = s.emitted past := way.effects_eq
  have accounted := told.accounted
  rw [told.effects, way.effects_eq] at accounted
  refine ⟨past, way, ?_, ?_, ?_, ?_⟩
  · intro before e after split t now
    have settings : t.settings = s.settings := s.replay_settings before
    have services : t.services = s.services := s.replay_services before
    refine ⟨?_, ?_, ?_⟩
    · rw [effects, split, emitted_append, emitted, List.append_assoc]
    · intro c charged
      rw [← settings, ← services]
      refine ⟨t.emit_of_charge e.host charged, ?_⟩
      intro view index fault heard
      rw [heard] at charged
      exact t.hear_of_charge e.host charged
    · intro uncharged
      rw [← settings]
      exact t.spoken_emit e.host uncharged
  · rw [effects, accounted.commands, s.reports_emitted]
  · rw [effects, accounted.endings, s.reports_emitted]
  · intro text said
    rw [effects] at said
    exact s.marked_emitted said

/-- A debugger detaches in an entry point that then fails for another reason. -/
def detachedThenFailed : Lone Unit :=
  .enter 0 0
    (.enter 0 (-10) (.done (.failed .badEntryPoint)) fun _ => .done (.returned 0))
    fun _ => .enter 0 1 (.done (.failed .sleeping)) fun _ => .done (.returned 0)

example :
    (detachedThenFailed.run
      (Monitor.start { runOnError := "alert", dieOnError := true } .system {}) .bare).effects =
      [.judged 1 (-10) .badEntryPoint .suppressed, .judged 1 1 .sleeping .abort,
        .line "[debug] Run time error 12: \"(sleep mode)\"", .line "[debug] Script backtrace:",
        .line "[debug] #0 00000000 in ?? ()", .started .platform "alert",
        .line "[debug] Aborting...", .ended .platform 1] := by
  decide +kernel

end Program

end Postmortem
