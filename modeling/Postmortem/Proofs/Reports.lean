import Postmortem.Proofs.Course

/-!
# What is done about reports

A report has one headline, and what the host wants done about faults is done once for it. Nothing
else that a monitor does has a headline, starts a command or ends the process.

* `Accounted`: effects in which headlines, commands and endings are matched with the reports.
* `Program.Tells.accounted`: the effects of every run are such effects.
-/

namespace Postmortem

namespace Effect

def isHeadline (marker : String) : Effect → Bool
  | line text => decide ((marker ++ "Run time error ").toList <+: text.toList)
  | _ => false

@[simp] theorem isHeadline_started (marker : String) (process : ProcessControl) (command : String) :
    isHeadline marker (.started process command) = false := rfl

@[simp] theorem isHeadline_ended (marker : String) (process : ProcessControl) (status : Int32) :
    isHeadline marker (.ended process status) = false := rfl

@[simp] theorem isHeadline_judged (marker : String) (owner : Handle) (index : Int32)
    (fault : Fault) (verdict : Verdict) :
    isHeadline marker (.judged owner index fault verdict) = false := rfl

/-- A fault was judged, and no debugger detached. -/
def isReport : Effect → Bool
  | judged _ _ _ verdict => decide (verdict ≠ .suppressed)
  | _ => false

def isCommand : Effect → Bool
  | started _ _ => true
  | _ => false

def isEnding : Effect → Bool
  | ended _ _ => true
  | _ => false

/-- Neither judges a fault nor belongs to what is done about one, a detail or a backtrace apart. -/
def isAside (marker : String) : Effect → Bool
  | line text => !isHeadline marker (line text)
  | unwound _ => true
  | _ => false

end Effect

open Effect

/-- Every judgement is a report unless a debugger detaches. Headlines, commands and endings are as
many as the reports, or there are none where the settings want none. -/
structure Accounted (settings : Settings) (es : List Effect) : Prop where
  detached : ∀ owner index fault verdict, Effect.judged owner index fault verdict ∈ es →
    (verdict = .suppressed ↔ fault.isDetach index settings.detachIndex)
  headlines : es.countP (isHeadline settings.marker) = es.countP isReport
  commands : es.countP isCommand = if settings.runOnError = "" then 0 else es.countP isReport
  endings : es.countP isEnding = if settings.dieOnError then es.countP isReport else 0

namespace Accounted

variable {settings : Settings} {es fs : List Effect}

theorem append (he : Accounted settings es) (hf : Accounted settings fs) :
    Accounted settings (es ++ fs) where
  detached owner index fault verdict hj := by
    rcases List.mem_append.mp hj with hj | hj
    · exact he.detached owner index fault verdict hj
    · exact hf.detached owner index fault verdict hj
  headlines := by simp [he.headlines, hf.headlines]
  commands := by
    rw [List.countP_append, List.countP_append, he.commands, hf.commands]
    split <;> rfl
  endings := by
    rw [List.countP_append, List.countP_append, he.endings, hf.endings]
    split <;> rfl

theorem of_asides (asides : ∀ e ∈ es, e.isAside settings.marker) : Accounted settings es := by
  have none (f : Effect → Bool) (hf : ∀ e, e.isAside settings.marker → ¬ f e) :
      es.countP f = 0 := List.countP_eq_zero.mpr fun e he => hf e (asides e he)
  have reports := none isReport fun e => by cases e <;> simp [isAside, isReport]
  refine ⟨?_, ?_, ?_, ?_⟩
  · intro owner index fault verdict hj
    exact absurd (asides _ hj) (by simp [isAside])
  · rw [reports]
    exact none _ fun e => by cases e <;> simp [isAside, isHeadline]
  · rw [reports, ite_self]
    exact none _ fun e => by cases e <;> simp [isAside, isCommand]
  · rw [reports, ite_self]
    exact none _ fun e => by cases e <;> simp [isAside, isEnding]

theorem nil : Accounted settings [] := of_asides nofun

theorem perm (he : Accounted settings es) (same : es.Perm fs) : Accounted settings fs where
  detached owner index fault verdict hj :=
    he.detached owner index fault verdict (same.mem_iff.mpr hj)
  headlines := by rw [← same.countP_eq, ← same.countP_eq, he.headlines]
  commands := by rw [← same.countP_eq, ← same.countP_eq, he.commands]
  endings := by rw [← same.countP_eq, ← same.countP_eq, he.endings]

end Accounted

/-- Details are indented. -/
theorem Fault.head?_of_mem_details {fault : Fault} {m : Machine} {text : String}
    (ht : text ∈ fault.details m) : text.toList.head? = some ' ' := by
  cases fault with
  | bounds =>
    rw [List.mem_singleton.mp ht]
    simp only [boundsDetail]
    split <;> simp [String.toList_append]
  | notFound =>
    obtain ⟨n, _, rfl⟩ := List.mem_map.mp ht
    simp [String.toList_append]
  | invalidInstruction =>
    rw [List.mem_singleton.mp ht]
    simp only [instructionDetail]
    split <;> simp [String.toList_append]
  | collision | stackUnderflow | heapUnderflow =>
    rw [List.mem_singleton.mp ht]
    simp [String.toList_append]
  | _ => cases ht

namespace Monitor

variable (s : Monitor) (host : Host)

/-! ## Asides -/

theorem isHeadline_say (text : String) :
    isHeadline s.settings.marker (.line (s.settings.marker ++ text)) ↔
      "Run time error ".toList <+: text.toList := by
  simp [isHeadline, String.toList_append]

theorem asides_say {texts : List String}
    (other : ∀ text ∈ texts, ¬ "Run time error ".toList <+: text.toList) :
    ∀ e ∈ s.say texts, e.isAside s.settings.marker := by
  intro e he
  obtain ⟨text, ht, rfl⟩ := List.mem_map.mp he
  have plain := mt (s.isHeadline_say text).mp (other text ht)
  simpa [isAside] using plain

theorem not_headline_of_mem_numbered {texts : List String} {text : String}
    (ht : text ∈ Backtrace.numbered texts) : ¬ "Run time error ".toList <+: text.toList := by
  obtain ⟨p, _, rfl⟩ := List.mem_map.mp ht
  simp [String.toList_append]

theorem asides_sayBacktrace : ∀ e ∈ s.sayBacktrace host, e.isAside s.settings.marker := by
  apply asides_say
  unfold Backtrace.lines
  split
  · exact nofun
  · rw [List.forall_mem_cons]
    exact ⟨by simp, fun text ht => not_headline_of_mem_numbered ht⟩

theorem asides_saySystem (trap : Option Trap) :
    ∀ e ∈ s.saySystem trap, e.isAside s.settings.marker := by
  rw [saySystem, List.forall_mem_append]
  constructor
  · unfold askFrames
    split <;> simp [isAside]
  · apply asides_say
    rw [Backtrace.systemLines, List.forall_mem_cons]
    exact ⟨by simp, fun text ht => not_headline_of_mem_numbered ht⟩

theorem asides_checkRelease (view : Nat) (address : Cell) (caller : UInt64) :
    ∀ e ∈ (s.checkRelease host view address caller).2, e.isAside s.settings.marker := by
  unfold checkRelease
  split
  · exact nofun
  · rw [List.forall_mem_append]
    constructor
    · apply asides_say
      simp [String.toList_append]
    · exact (s.observe host view).asides_saySystem none

theorem asides_sayHost (running idle : String)
    (hr : ∀ name, ¬ "Run time error ".toList <+: (running ++ name).toList)
    (hi : ¬ "Run time error ".toList <+: idle.toList) :
    ∀ e ∈ s.sayHost host running idle, e.isAside s.settings.marker := by
  unfold sayHost
  split
  · rw [List.forall_mem_append]
    refine ⟨?_, s.asides_sayBacktrace host⟩
    apply asides_say
    intro text ht
    rw [List.mem_singleton.mp ht, String.append_assoc]
    exact hr _
  · apply asides_say
    simpa using hi

theorem asides_take (n : Notice) : ∀ e ∈ (s.take host n).2, e.isAside s.settings.marker := by
  cases n with
  | created | destroyed | leaked => exact nofun
  | showScript => exact s.asides_sayBacktrace host
  | showSystem trap => exact s.asides_saySystem trap
  | crashed trap =>
    simp only [take, crash, List.forall_mem_append]
    exact ⟨s.asides_sayHost host _ _ (by simp [String.toList_append]) (by simp),
      s.asides_saySystem trap⟩
  | interrupted trap =>
    simp only [take, interrupt, List.forall_mem_append]
    exact ⟨s.asides_sayHost host _ _ (by simp [String.toList_append]) (by simp),
      s.asides_saySystem trap⟩

/-! ## Judging -/

theorem asides_details (fault : Fault) (m : Machine) :
    ∀ e ∈ s.say (fault.details m), e.isAside s.settings.marker := by
  apply asides_say
  intro text ht starts
  have indented := Fault.head?_of_mem_details ht
  obtain ⟨cs, hcs⟩ := starts
  simp [← hcs] at indented

theorem isHeadline_headline (fault : Fault) :
    isHeadline s.settings.marker (.line (s.settings.marker ++ fault.headline)) := by
  apply (s.isHeadline_say _).mpr
  unfold Fault.headline
  simp only [String.append_assoc]
  rw [String.toList_append]
  exact List.prefix_append _ _

theorem not_isHeadline_aborting :
    ¬ isHeadline s.settings.marker (.line (s.settings.marker ++ "Aborting...")) :=
  mt (s.isHeadline_say _).mp (by simp)

theorem detached_of_eq_judged {owner : Handle} {index : Int32} {fault : Fault} {verdict : Verdict}
    {o : Handle} {i : Int32} {f : Fault}
    (same : Effect.judged owner index fault verdict = .judged o i f (s.verdict i f)) :
    verdict = .suppressed ↔ fault.isDetach index s.settings.detachIndex := by
  cases same
  exact s.verdict_eq_suppressed_iff index fault

/-- A judgement that is a report, its headline, and what the host wants done about it. -/
theorem accounted_policy (owner : Handle) (index : Int32) (fault : Fault)
    (reported : s.verdict index fault ≠ .suppressed) :
    Accounted s.settings
      (.judged owner index fault (s.verdict index fault) :: s.say [fault.headline] ++
        s.policy) := by
  have headline := s.isHeadline_headline fault
  have aborting := s.not_isHeadline_aborting
  constructor
  case detached =>
    intro o i f v hj
    have same : Effect.judged o i f v = .judged owner index fault (s.verdict index fault) := by
      unfold policy at hj
      split at hj <;> split at hj <;> simpa [say] using hj
    exact s.detached_of_eq_judged same
  -- Every count under each policy: with a command or without, and with an ending or without.
  all_goals
    unfold policy
    split <;> split <;> simp [say, List.countP_cons, isReport, isCommand, isEnding, *]

theorem asides_backtrace (fault : Fault) :
    ∀ e ∈ (if fault.wantsBacktrace then s.sayBacktrace host else []),
      e.isAside s.settings.marker := by
  by_cases wanted : fault.wantsBacktrace
  · rw [if_pos wanted]
    exact s.asides_sayBacktrace host
  · rw [if_neg wanted]
    exact nofun

theorem accounted_judge (view : Nat) (index : Int32) (fault : Fault) :
    Accounted s.settings (s.judge host view index fault).2 := by
  simp only [judge]
  by_cases suppressed : s.verdict index fault = .suppressed
  · rw [if_pos suppressed]
    constructor
    case detached =>
      intro o i f v hj
      exact s.detached_of_eq_judged (List.mem_singleton.mp hj)
    all_goals simp [isReport, isCommand, isEnding, suppressed]
  · rw [if_neg suppressed]
    have asides := Accounted.of_asides
      (List.forall_mem_append.mpr
        ⟨s.asides_details fault (host.machine view), s.asides_backtrace host fault⟩)
    have policy := s.accounted_policy (host.machine view).handle index fault suppressed
    refine (policy.append asides).perm ?_
    simp only [report, say, List.map_cons, List.map_nil, List.cons_append, List.nil_append]
    exact (List.perm_append_comm.cons _).cons _

theorem accounted_take (n : Notice) : Accounted s.settings (s.take host n).2 :=
  .of_asides (s.asides_take host n)

theorem accounted_checkRelease (view : Nat) (address : Cell) (caller : UInt64) :
    Accounted s.settings (s.checkRelease host view address caller).2 :=
  .of_asides (s.asides_checkRelease host view address caller)

theorem accounted_hear (view : Nat) (index : Int32) (fault : Fault) :
    Accounted s.settings (s.hear host view index fault).2.2 := by
  simp only [hear]
  split
  · exact .nil
  · exact (s.observe host view).accounted_judge ..

theorem accounted_leaveEntry (view : Nat) (index : Int32) (g : Guard) (outcome : Outcome) :
    Accounted s.settings (s.leaveEntry host view index g outcome).2 := by
  cases outcome with
  | returned value => exact .nil
  | failed fault =>
    simp only [leaveEntry, conclude]
    split
    · exact .nil
    · exact s.accounted_judge ..

/-! ## Settings -/

@[simp] theorem take_settings (n : Notice) : (s.take host n).1.settings = s.settings := by
  cases n <;> rfl

@[simp] theorem hear_settings (view : Nat) (index : Int32) (fault : Fault) :
    (s.hear host view index fault).2.1.settings = s.settings := by
  simp only [hear]
  split <;> rfl

@[simp] theorem checkRelease_settings (view : Nat) (address : Cell) (caller : UInt64) :
    (s.checkRelease host view address caller).1.settings = s.settings := by
  unfold checkRelease
  split <;> rfl

@[simp] theorem enterEntry_settings (view : Nat) (index : Int32) :
    (s.enterEntry host view index).settings = s.settings := rfl

@[simp] theorem enterNative_settings (view : Nat) (index : Int32) :
    (s.enterNative host view index).settings = s.settings := rfl

@[simp] theorem leaveEntry_settings (view : Nat) (index : Int32) (g : Guard) (outcome : Outcome) :
    (s.leaveEntry host view index g outcome).1.settings = s.settings := by
  cases outcome with
  | returned value => rfl
  | failed fault =>
    simp only [leaveEntry, conclude, settle, abandon]
    split <;> rfl

@[simp] theorem leaveNative_settings (g : Guard) (outcome : Outcome) :
    (s.leaveNative g outcome).settings = s.settings := by
  cases outcome <;> rfl

@[simp] theorem perform_settings (d : Deed) : (s.perform host d).settings = s.settings := by
  cases d with
  | abandoned g => rfl
  | _ => simp [perform]

/-- No deed changes the settings. -/
theorem replay_settings (past : List Event) : (s.replay past).settings = s.settings := by
  induction past generalizing s with
  | nil => rfl
  | cons e past ih => rw [replay_cons, ih, perform_settings]

end Monitor

namespace Program

variable {ν : Type} {p : Lone ν} {s : Monitor} {h : Host} {r : Run Monitor ν} {t : Story}

theorem Tells.settings (told : Tells p s h r t) : r.desk.settings = s.settings := by
  obtain ⟨past, way⟩ := told.reaches
  rw [way.replay, Monitor.replay_settings]

/-- **What is done about faults is done once for every report.** By induction on the run: each
operation of a monitor does as much about reports as it makes reports. -/
theorem Tells.accounted (told : Tells p s h r t) : Accounted s.settings t.effects := by
  induction told with
  | done | panic => exact .nil
  | note n _ ih => exact ih
  | change f _ ih => exact ih
  | inspect _ ih => exact ih
  | tell n _ ih =>
    rw [Monitor.take_settings] at ih
    exact (Monitor.accounted_take ..).append ih
  | raise view index fault _ ih =>
    rw [Monitor.hear_settings] at ih
    exact (Monitor.accounted_hear ..).append ih
  | releasePanicked view address caller _ ih =>
    rw [Monitor.checkRelease_settings] at ih
    simpa [Story.effects] using (Monitor.accounted_checkRelease ..).append ih
  | release view address caller inner _ ihb ihn =>
    rw [inner.settings, Monitor.checkRelease_settings] at ihn
    rw [Monitor.checkRelease_settings] at ihb
    simpa [Story.effects] using (Monitor.accounted_checkRelease ..).append (ihb.append ihn)
  | entryPanicked view index _ ih => simpa [Story.effects] using ih
  | @entry body next s h outcome d h' trace b r t view index inner _ ihb ihn =>
    have left := d.accounted_leaveEntry h' view index (entryGuard s h view index) outcome
    rw [inner.settings] at left
    rw [Monitor.leaveEntry_settings, inner.settings] at ihn
    exact (ihb.append left).append ihn
  | nativePanicked view index _ ih => simpa [Story.effects] using ih
  | native view index inner _ ihb ihn =>
    rw [Monitor.leaveNative_settings, inner.settings] at ihn
    exact ihb.append ihn
  | guarded inner _ ihb ihn =>
    rw [inner.settings] at ihn
    simpa using ihb.append ihn

end Program

end Postmortem
