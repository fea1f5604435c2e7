import Postmortem.Proofs.Bracketing

/-!
# Whose backtrace a report shows

A report speaks of the fault of one machine, and the backtrace in it is that of the machine with the
innermost open call. The two need not be the same.

* `Monitor.backtraceOf`: the backtrace of one machine, from its own innermost open call.
* `Monitor.shown`: what a backtrace shows, each entry with the machine whose call it is for.
* `Program.reported_backtrace_owner`: a report is about one machine alone exactly if that machine
  has the innermost open call, or nothing is shown. At the end of an entry point it always has, as
  long as every call is ended.
-/

namespace Postmortem

namespace Backtrace

/-- The calls of one machine, newest first, from its innermost one down to the first call of another
machine under it. -/
def callsOf (v : Handle) (calls : List Call) : List Call :=
  (calls.reverse.dropWhile (·.owner ≠ v)).takeWhile (·.owner = v)

theorem owner_of_mem_innermost {calls : List Call} {c : Call} (hc : c ∈ innermost calls) :
    ∃ top, calls.getLast? = some top ∧ c.owner = top.owner := by
  unfold innermost at hc
  cases last : calls.getLast? with
  | none => simp [last] at hc
  | some top =>
    rw [last] at hc
    exact ⟨top, rfl, by simpa using List.all_eq_true.mp List.all_takeWhile c hc⟩

theorem innermost_of_top {calls : List Call} {top : Call} (h : calls.getLast? = some top) :
    innermost calls = callsOf top.owner calls := by
  obtain ⟨older, rfl⟩ := List.getLast?_eq_some_iff.mp h
  simp [innermost, callsOf]

/-- The entries of a backtrace, each with the owner of the call that it is for. -/
def attributed (m : Machine) (i : Instance) (modules : ModuleMap) :
    Cell → Cell → List Call → List (Handle × TraceEntry)
  | _, _, [] => []
  | ip, fp, .native owner index :: older =>
    (ofNative m modules index).map (owner, ·) ++ attributed m i modules ip fp older
  | ip, fp, .entry owner index ip' fp' :: older =>
    (ofRun m i index ip fp fp').map (owner, ·) ++ attributed m i modules ip' fp' older

variable {m : Machine} {i : Instance} {modules : ModuleMap}

theorem entries_attributed (ip fp : Cell) (calls : List Call) :
    (attributed m i modules ip fp calls).map (·.2) = ofRuns m i modules ip fp calls := by
  induction calls generalizing ip fp with
  | nil => rfl
  | cons c older ih =>
    cases c with
    | native owner index => simp [attributed, ofRuns, ih, Function.comp_def]
    | entry owner index ip' fp' => simp [attributed, ofRuns, ih, Function.comp_def]

theorem owner_of_mem_attributed {ip fp : Cell} {calls : List Call} {e : Handle × TraceEntry}
    (he : e ∈ attributed m i modules ip fp calls) : ∃ c ∈ calls, c.owner = e.1 := by
  induction calls generalizing ip fp with
  | nil => cases he
  | cons c older ih =>
    cases c with
    | native owner index =>
      rcases List.mem_append.mp he with here | later
      · obtain ⟨entry, _, rfl⟩ := List.mem_map.mp here
        exact ⟨_, List.mem_cons_self, rfl⟩
      · obtain ⟨c, hc, owned⟩ := ih later
        exact ⟨c, List.mem_cons_of_mem _ hc, owned⟩
    | entry owner index ip' fp' =>
      rcases List.mem_append.mp he with here | later
      · obtain ⟨entry, _, rfl⟩ := List.mem_map.mp here
        exact ⟨_, List.mem_cons_self, rfl⟩
      · obtain ⟨c, hc, owned⟩ := ih later
        exact ⟨c, List.mem_cons_of_mem _ hc, owned⟩

end Backtrace

namespace Monitor

variable (s : Monitor) (h : Host)

/-- The backtrace of one machine by its own registers, memory, tables and symbols, from its
innermost open call, whichever calls of other machines are open above it. -/
def backtraceOf (v : Handle) : Backtrace :=
  match s.instance? v with
  | some i =>
    let m := h.machine i.view
    .ofRuns m i s.services.modules m.registers.cip m.registers.frm
      (Backtrace.callsOf v s.calls.calls)
  | none => []

/-- The machine with the innermost open call. -/
def implicated? : Option Handle := s.calls.top?.map (·.owner)

/-- What a backtrace shows now, each entry with the machine whose call it is for. -/
def shown : List (Handle × TraceEntry) :=
  match s.implicated?.bind s.instance? with
  | some i =>
    let m := h.machine i.view
    Backtrace.attributed m i s.services.modules m.registers.cip m.registers.frm
      (Backtrace.innermost s.calls.calls)
  | none => []

theorem entries_shown : (s.shown h).map (·.2) = s.backtrace h := by
  unfold shown backtrace implicated?
  cases s.calls.top? with
  | none => rfl
  | some top =>
    simp only [Option.map_some, Option.bind_some]
    cases s.instance? top.owner with
    | none => rfl
    | some i => exact Backtrace.entries_attributed ..

theorem backtrace_of_implicated {w : Handle} (top : s.implicated? = some w) :
    s.backtrace h = s.backtraceOf h w := by
  obtain ⟨call, found, rfl⟩ := Option.map_eq_some_iff.mp top
  unfold backtrace backtraceOf
  rw [found, Option.bind_some]
  cases s.instance? call.owner with
  | none => rfl
  | some i => simp only [Backtrace.ofCalls, Backtrace.innermost_of_top found]

/-- All of it is for the machine with the innermost open call. -/
theorem owner_of_mem_shown {e : Handle × TraceEntry} (he : e ∈ s.shown h) :
    s.implicated? = some e.1 := by
  unfold shown at he
  cases known : s.implicated?.bind s.instance? with
  | none => simp [known] at he
  | some i =>
    rw [known] at he
    obtain ⟨c, hc, owned⟩ := Backtrace.owner_of_mem_attributed he
    obtain ⟨top, found, same⟩ := Backtrace.owner_of_mem_innermost hc
    rw [implicated?, CallStack.top?, found, Option.map_some, ← same, owned]

theorem shown_alone_iff (v : Handle) :
    (∀ e ∈ s.shown h, e.1 = v) ↔ s.shown h = [] ∨ s.implicated? = some v := by
  constructor
  · intro alone
    rcases List.eq_nil_or_concat (s.shown h) with none | ⟨others, e, some⟩
    · exact .inl none
    · have he : e ∈ s.shown h := by simp [some]
      rw [← alone e he]
      exact .inr (s.owner_of_mem_shown h he)
  · rintro (none | top) e he
    · simp [none] at he
    · exact Option.some.inj ((s.owner_of_mem_shown h he).symm.trans top)

/-- The report of a fault of the machine `v`, seen through `view`. -/
structure ReportsOn (view : Nat) (index : Int32) (fault : Fault) (v : Handle)
    (es : List Effect) : Prop where
  /-- The backtrace under the headline is what the monitor shows at that moment. -/
  effects : es = .judged (h.machine view).handle index fault (s.verdict index fault) ::
    (s.say (fault.headline :: fault.details (h.machine view)) ++
      (if fault.wantsBacktrace then s.say (Backtrace.lines ((s.shown h).map (·.2))) else []) ++
      s.policy)
  /-- It is the backtrace of the machine with the innermost open call. -/
  owned : ∀ w, s.implicated? = some w → (s.shown h).map (·.2) = s.backtraceOf h w
  /-- It shows nothing of another machine exactly if that machine is `v`, or it shows nothing. -/
  alone_iff : (∀ e ∈ s.shown h, e.1 = v) ↔ s.shown h = [] ∨ s.implicated? = some v

variable {s h}

theorem reportsOn_judge {view : Nat} {index : Int32} {fault : Fault}
    (reported : s.verdict index fault ≠ .suppressed) (v : Handle) :
    s.ReportsOn h view index fault v (s.judge h view index fault).2 where
  effects := by simp [judge, reported, report, sayBacktrace, entries_shown]
  owned w top := by rw [entries_shown, backtrace_of_implicated s h top]
  alone_iff := s.shown_alone_iff h v

theorem hear_of_clear (clear : s.judged = false) (view : Nat) (index : Int32) (fault : Fault) :
    (s.hear h view index fault).2.2 = ((s.observe h view).judge h view index fault).2 := by
  simp [hear, clear]

theorem leaveEntry_of_clear (clear : s.judged = false) (view : Nat) (index : Int32) (g : Guard)
    (fault : Fault) :
    (s.leaveEntry h view index g (.failed fault)).2 = (s.judge h view index fault).2 := by
  simp [leaveEntry, conclude, clear]

end Monitor

namespace Program

open Monitor

variable {ν : Type} {p : Lone ν} {start s : Monitor} {host h : Host} {past : List Event}
  {view : Nat} {index : Int32} {fault : Fault}

/-- **A report shows the machine with the innermost open call.** A machine that tells of a fault has
that machine's backtrace in its report, which is its own exactly if it has the innermost call itself
or nothing is shown. So it is at the end of an entry point, where the innermost call is the entry
point's own unless its body left a call open. -/
theorem reported_backtrace_owner :
    (∀ next, Reaches p start host past (.before (.raise view index fault next)) s h →
      s.judged = false → s.verdict index fault ≠ .suppressed →
      (s.observe h view).ReportsOn h view index fault (h.machine view).handle
        (s.hear h view index fault).2.2) ∧
    ∀ body next d h' trace,
      Reaches p start host past (.before (.enter view index body next)) s h →
      body.run (s.enterEntry h view index) h = ⟨some (.failed fault), d, h', trace⟩ →
      d.judged = false → d.verdict index fault ≠ .suppressed →
      d.ReportsOn h' view index fault (h.machine view).handle
        (d.leaveEntry h' view index (entryGuard s h view index) (.failed fault)).2 ∧
      (p.EndsCalls → d.implicated? = some (h.machine view).handle) := by
  constructor
  · intro next _ clear reported
    rw [hear_of_clear clear]
    exact reportsOn_judge (s := s.observe h view) reported (h.machine view).handle
  · intro body next d h' trace way ran clear reported
    rw [leaveEntry_of_clear clear]
    refine ⟨reportsOn_judge reported (h.machine view).handle, ?_⟩
    intro ends
    have kept := (tells_run body (s.enterEntry h view index) h).calls_eq (way.endsCalls ends).1
    rw [ran] at kept
    rw [implicated?, show d.calls = _ from kept]
    simp [enterEntry, push, entryCall, Call.owner]

/-- A host with two machines, each with one entry point. -/
def twoMachines : Host where
  machine view :=
    { Host.bare.machine 0 with
      handle := if view = 0 then 1 else 2
      entries := [⟨"OnCall", if view = 0 then 0x20 else 0x50⟩] }

/-- The first machine tells of a fault while an entry point of the second one runs. -/
def overheard : Lone Unit :=
  .enter 0 0
    (.enter 1 0 (.raise 0 0 .divideByZero fun _ => .done (.returned 0)) fun _ =>
      .done (.returned 0))
    fun _ => .done (.returned 0)

/-- The second machine fails in an entry point that the first one runs. -/
def relayedFault : Lone Unit :=
  .enter 0 0 (.enter 1 0 (.done (.failed .divideByZero)) fun _ => .done (.returned 0)) fun _ =>
    .done (.returned 0)

theorem reported_backtrace_owner_twoMachines :
    let h := twoMachines
    let s := Monitor.bare.enterEntry h 0 0
    let within := s.enterEntry h 1 0
    (Reaches overheard .bare h [⟨.enteredEntry 0 0, h⟩, ⟨.enteredEntry 1 0, h⟩]
        (.before (.raise 0 0 .divideByZero fun _ => .done (.returned 0))) within h ∧
      within.judged = false ∧ within.verdict 0 .divideByZero ≠ .suppressed ∧
      (within.observe h 0).ReportsOn h 0 0 .divideByZero 1
        (within.hear h 0 0 .divideByZero).2.2) ∧
    Reaches relayedFault .bare h [⟨.enteredEntry 0 0, h⟩]
      (.before (.enter 1 0 (.done (.failed .divideByZero)) fun _ => .done (.returned 0))) s h ∧
    relayedFault.EndsCalls ∧
    within.ReportsOn h 1 0 .divideByZero 2
      (within.leaveEntry h 1 0 (entryGuard s h 1 0) (.failed .divideByZero)).2 ∧
    within.implicated? = some 2 := by
  intro h s within
  have telling : Reaches overheard .bare h [⟨.enteredEntry 0 0, h⟩, ⟨.enteredEntry 1 0, h⟩]
      (.before (.raise 0 0 .divideByZero fun _ => .done (.returned 0))) within h :=
    .inEntry 0 0 (.inEntry 1 0 (.here ..))
  have failing : Reaches relayedFault .bare h [⟨.enteredEntry 0 0, h⟩]
      (.before (.enter 1 0 (.done (.failed .divideByZero)) fun _ => .done (.returned 0))) s h :=
    .inEntry 0 0 (.here ..)
  have ends : relayedFault.EndsCalls := ⟨⟨trivial, fun _ => trivial⟩, fun _ => trivial⟩
  obtain ⟨report, innermost⟩ :=
    reported_backtrace_owner.2 _ _ _ _ _ failing rfl rfl (by decide +kernel)
  exact ⟨⟨telling, rfl, by decide +kernel,
    reported_backtrace_owner.1 _ telling rfl (by decide +kernel)⟩,
    failing, ends, report, innermost ends⟩

/-- Under the headline of the first machine's fault stands the entry point of the second. -/
theorem overheard_shows_other_machine :
    let h := twoMachines
    let within := (Monitor.bare.enterEntry h 0 0).enterEntry h 1 0
    (overheard.run Monitor.bare h).effects =
      [.judged 1 0 .divideByZero .goOn, .line "[debug] Run time error 11: \"Divide by zero\"",
        .line "[debug] Script backtrace:", .line "[debug] #0 00000050 in 00000050 ()"] ∧
    ¬ ∀ e ∈ (within.observe h 0).shown h, e.1 = (h.machine 0).handle := by
  decide +kernel

end Program

end Postmortem
