import Postmortem.Proofs.Story

/-!
# Which failures are passed over

A monitor remembers only that some judged fault is on its way out, not which one. What it remembers
is told by the marks of the story so far, and so are the failures it passes over.

* `Program.Tells.judged`: a monitor remembers what the last mark says.
* `Program.failure_judged_iff`: which entry points that fail are judged while they run.
* `Program.forgotten_at_rest_iff`: when nothing is remembered with no call open.
-/

namespace Postmortem

namespace Program

variable {ν : Type}

open Mark Effect

theorem pending_ofEffects_hear (s : Monitor) (h : Host) (view : Nat) (index : Int32)
    (fault : Fault) :
    pending s.judged (ofEffects (s.hear h view index fault).2.2) = true := by
  cases hs : s.judged
  · obtain ⟨e, he⟩ := s.judgements_hear hs h view index fault
    simp [ofEffects, he, pending]
  · simp [Monitor.hear_of_judged hs, ofEffects]

theorem leaveEntry_judged (s : Monitor) (h : Host) (view : Nat) (index : Int32) (g : Guard)
    (outcome : Outcome) :
    (s.leaveEntry h view index g outcome).1.judged =
      pending s.judged (ofEffects (s.leaveEntry h view index g outcome).2 ++
        ofEnd (some outcome) (s.leaveEntry h view index g outcome).1.calls.isEmpty) := by
  rw [pending_append, Monitor.leaveEntry_calls]
  cases outcome with
  | returned value => rfl
  | failed fault =>
    have passed :
        pending s.judged (ofEffects (s.leaveEntry h view index g (.failed fault)).2) = true := by
      cases hs : s.judged
      · obtain ⟨e, he⟩ := Monitor.judgements_leaveEntry hs h view index g fault
        simp [ofEffects, he, pending]
      · simp [Monitor.leaveEntry_effects_of_judged hs, ofEffects]
    rw [passed, Monitor.leaveEntry_failed_judged]
    cases (s.calls.drop g).isEmpty <;> rfl

theorem leaveNative_judged (s : Monitor) (g : Guard) (outcome : Outcome) :
    (s.leaveNative g outcome).judged = pending s.judged (ofEnd (some outcome) false) := by
  cases outcome <;> rfl

variable {p : Lone ν} {s : Monitor} {h : Host} {r : Run Monitor ν} {t : Story}

/-- A monitor remembers what the last mark says. -/
theorem Tells.judged (told : Tells p s h r t) : r.desk.judged = pending s.judged t.marks := by
  induction told with
  | done => rfl
  | panic => rfl
  | note n _ ih => exact ih
  | change f _ ih => exact ih
  | inspect _ ih => exact ih
  | tell n _ ih =>
    rw [Monitor.take_judged] at ih
    simpa [Story.marks, ofEffects, Monitor.judgements_take] using ih
  | raise view index fault _ ih =>
    rw [Monitor.hear_judged] at ih
    rwa [Story.marks, pending_append, pending_ofEffects_hear]
  | releasePanicked view address caller _ ih =>
    rw [Monitor.checkRelease_judged] at ih
    simpa [Story.marks, ofEffects] using ih
  | release view address caller _ _ ihb ihn =>
    rw [Monitor.checkRelease_judged] at ihb
    rw [ihb, ← pending_append] at ihn
    simpa [Story.marks, ofEffects] using ihn
  | entryPanicked view index _ ih => simpa [Story.marks, ofEffects, ofEnd] using ih
  | entry view index _ _ ihb ihn =>
    rw [leaveEntry_judged, ihb, Monitor.enterEntry_judged, ← pending_append,
      ← pending_append] at ihn
    simpa [Story.marks] using ihn
  | nativePanicked view index _ ih => simpa [Story.marks, ofEnd] using ih
  | native view index _ _ ihb ihn =>
    rw [leaveNative_judged, ihb, Monitor.enterNative_judged, ← pending_append,
      ← pending_append] at ihn
    simpa [Story.marks] using ihn
  | guarded _ _ ihb ihn =>
    rw [ihb, ← pending_append] at ihn
    simpa using ihn

theorem judgements_leaveEntry_eq_nil_iff (s : Monitor) (h : Host) (view : Nat) (index : Int32)
    (g : Guard) (fault : Fault) :
    judgements (s.leaveEntry h view index g (.failed fault)).2 = [] ↔ s.judged = true := by
  cases hs : s.judged
  · obtain ⟨e, he⟩ := Monitor.judgements_leaveEntry hs h view index g fault
    simp [he]
  · simp [Monitor.leaveEntry_effects_of_judged hs]

/-- The end of a failing entry point passes its failure over exactly if, by the marks up to it, a
judged fault is on its way out. `before` is what the monitor remembered before the past began. -/
theorem Tells.visits_pending (told : Tells p s h r t) (before : Bool) (past : List Mark)
    (hs : s.judged = pending before past) :
    ∀ v ∈ t.visits past, ∀ fault, v.outcome = some (.failed fault) →
      (judgements v.effects = [] ↔ pending before (v.past ++ v.body.marks) = true) := by
  induction told generalizing past with
  | done => simp [Story.visits]
  | panic => simp [Story.visits]
  | note n _ ih => exact ih past hs
  | change f _ ih => exact ih past hs
  | inspect _ ih => exact ih past hs
  | tell n _ ih =>
    apply ih
    rw [Monitor.take_judged, hs]
    simp [ofEffects, Monitor.judgements_take]
  | raise view index fault _ ih =>
    apply ih
    rw [Monitor.hear_judged, pending_append, ← hs, pending_ofEffects_hear]
  | releasePanicked view address caller inner ih =>
    rw [← Monitor.checkRelease_judged] at hs
    simpa [Story.visits, ofEffects] using ih past hs
  | release view address caller inner _ ihb ihn =>
    rw [← Monitor.checkRelease_judged] at hs
    have ran := inner.judged
    rw [hs, ← pending_append] at ran
    simp only [Story.visits, Story.visits_append, ofEffects, Monitor.judgements_checkRelease,
      List.map_nil, List.append_nil, List.forall_mem_append]
    exact ⟨ihb past hs, ihn _ ran⟩
  | entryPanicked view index inner ih => simpa [Story.visits] using ih past hs
  | @entry body next s h outcome d h' trace b r t view index inner _ ihb ihn =>
    have ran := inner.judged
    rw [Monitor.enterEntry_judged, hs, ← pending_append] at ran
    have left := leaveEntry_judged d h' view index (entryGuard s h view index) outcome
    rw [ran, ← pending_append] at left
    simp only [Story.visits, List.forall_mem_append, List.forall_mem_cons, List.cons_append]
    refine ⟨?_, ihb past hs, ?_⟩
    · rintro fault ⟨rfl⟩
      rw [judgements_leaveEntry_eq_nil_iff, ran]
    · apply ihn
      rw [left]
      simp
  | nativePanicked view index inner ih => simpa [Story.visits] using ih past hs
  | @native body next s h outcome d h' trace b r t view index inner _ ihb ihn =>
    have ran := inner.judged
    rw [Monitor.enterNative_judged, hs, ← pending_append] at ran
    have left := leaveNative_judged d (nativeGuard s h view index) outcome
    rw [ran, ← pending_append] at left
    simp only [Story.visits, List.forall_mem_append]
    refine ⟨ihb past hs, ?_⟩
    apply ihn
    rw [left]
    simp
  | guarded inner _ ihb ihn =>
    have ran := inner.judged
    rw [hs, ← pending_append] at ran
    simp only [Story.visits_append, List.forall_mem_append]
    exact ⟨ihb past hs, ihn _ ran⟩

/-- **A failure is passed over behind a judged one.** The run of an entry point that fails is
judged between its start and its return, unless the last mark before it is a judgement and nothing
in it was judged or succeeded. Then it is passed over, whether or not the judged fault had been
absorbed. -/
theorem failure_judged_iff (p : Lone ν) (s : Monitor) (h : Host) (clear : s.judged = false) :
    ∀ v ∈ (p.story s h).visits [], ∀ fault, v.outcome = some (.failed fault) →
      (v.judgements ≠ [] ↔ v.body.marks ≠ [] ∨ v.past.getLast? ≠ some .judged) := by
  intro v hv fault failed
  have exit := (tells_run p s h).visits_pending false [] clear v hv fault failed
  rw [pending_false_iff] at exit
  have inside := v.body.judgements_effects_eq_nil_iff
  rw [Visit.judgements, judgements_append, ne_eq, List.append_eq_nil_iff, inside, exit]
  rcases List.eq_nil_or_concat v.body.marks with none | ⟨ms, m, some⟩
  · simp [none]
  · -- The last mark inside decides, and it is no judgement if there is none inside.
    rw [some, List.concat_eq_append, ← List.append_assoc, List.getLast?_concat]
    have last : m ∈ ms ++ [m] := by simp
    constructor
    · intro _
      exact Or.inl (by simp)
    · rintro _ ⟨absent, judged⟩
      rw [Option.some.inj judged] at absent last
      exact absent last

/-- A native that runs two callbacks and discards what comes of them. -/
def twoCallbacks : Lone Unit :=
  let callback (index : Int32) (next : Lone Unit) : Lone Unit :=
    .enter 0 index (.done (.failed .notInitialised)) fun _ => next
  .enter 0 0
    (.native 0 0 (fun _ => callback 1 (callback 2 (.done (.returned 0)))) fun _ =>
      .done (.returned 0))
    fun _ => .done (.returned 0)

theorem failure_judged_iff_twoCallbacks :
    Monitor.bare.judged = false ∧
      ∃ v ∈ (twoCallbacks.story .bare .bare).visits [],
        v.outcome = some (.failed .notInitialised) ∧ v.past = [] ∧
        (v.judgements ≠ [] ↔ v.body.marks ≠ [] ∨ v.past.getLast? ≠ some .judged) := by
  have first : ∃ v ∈ (twoCallbacks.story .bare .bare).visits [],
      v.outcome = some (.failed .notInitialised) ∧ v.past = [] := by decide +kernel
  obtain ⟨v, visited, failed, past⟩ := first
  exact ⟨rfl, v, visited, failed, past,
    failure_judged_iff twoCallbacks .bare .bare rfl v visited .notInitialised failed⟩

/-- The first callback has been judged and given up, and the second is taken for it. -/
theorem second_callback_passed_over :
    ¬ ∀ v ∈ (twoCallbacks.story .bare .bare).visits [],
      v.outcome = some (.failed .notInitialised) → v.judgements ≠ [] := by
  decide +kernel

/-! ## With no call open -/

/-- A run that ends with no call open began with none. -/
theorem Tells.calls_eq_nil (told : Tells p s h r t) (rest : r.desk.calls.calls = []) :
    s.calls.calls = [] :=
  List.prefix_nil.mp (rest ▸ told.calls_prefix)

/-- What a monitor remembers with no call open: every entry point at the top leaves none open
either. -/
theorem Tells.judged_at_rest (told : Tells p s h r t) (rest : r.desk.calls.calls = []) :
    r.desk.judged = t.leftover s.judged := by
  induction told with
  | done => rfl
  | panic => rfl
  | note n _ ih => exact ih rest
  | change f _ ih => exact ih rest
  | inspect _ ih => exact ih rest
  | tell n _ ih =>
    have later := ih rest
    rwa [Monitor.take_judged] at later
  | raise view index fault _ ih =>
    have later := ih rest
    rwa [Monitor.hear_judged] at later
  | releasePanicked view address caller _ ih =>
    have inner := ih rest
    rw [Monitor.checkRelease_judged] at inner
    simpa [Story.leftover] using inner
  | release view address caller _ next ihb ihn =>
    have inner := ihb (next.calls_eq_nil rest)
    have later := ihn rest
    rw [inner, Monitor.checkRelease_judged] at later
    simpa [Story.leftover] using later
  | entryPanicked view index inner _ => exact inner.judged
  | @entry body next s h outcome d h' trace b r t view index _ further _ ihn =>
    have later := ihn rest
    rw [Monitor.leaveEntry_judged_of_idle (further.calls_eq_nil rest)] at later
    cases outcome <;> exact later
  | nativePanicked view index inner _ => simpa [Story.leftover, ofEnd] using inner.judged
  | native view index inner _ _ ihn =>
    have later := ihn rest
    rw [leaveNative_judged, inner.judged, Monitor.enterNative_judged, ← pending_append] at later
    simpa [Story.leftover] using later
  | guarded _ further ihb ihn =>
    have later := ihn rest
    rw [ihb (further.calls_eq_nil rest)] at later
    simpa using later

/-- **What outlives the last call.** With no call open, a monitor has forgotten every judged fault
exactly if the story left none behind. Just then the next telling is judged, and so is the next
entry point that fails of itself. -/
theorem forgotten_at_rest_iff (p : Lone ν) (settings : Settings) (services : Services)
    (env : Environment) (h : Host)
    (rest : (p.run (Monitor.start settings services env) h).desk.calls.calls = []) :
    let d := (p.run (Monitor.start settings services env) h).desk
    let left := (p.story (.start settings services env) h).leftover false
    (d.judged = false ↔ left = false) ∧
    (∀ host view index fault,
      judgements (d.hear host view index fault).2.2 ≠ [] ↔ left = false) ∧
    ∀ (body : Lone ν) host view index fault,
      let b := body.run (d.enterEntry host view index) host
      b.outcome = some (.failed fault) →
      (body.story (d.enterEntry host view index) host).marks = [] →
      (judgements (b.desk.leaveEntry b.host view index (entryGuard d host view index)
        (.failed fault)).2 ≠ [] ↔ left = false) := by
  intro d left
  have remembered : d.judged = left := (tells_run p _ h).judged_at_rest rest
  rw [← remembered]
  refine ⟨Iff.rfl, ?_, ?_⟩
  · intro host view index fault
    cases hd : d.judged
    · obtain ⟨e, he⟩ := d.judgements_hear hd host view index fault
      simp [he]
    · simp [Monitor.hear_of_judged hd]
  · intro body host view index fault b _ unmarked
    have ran := (tells_run body (d.enterEntry host view index) host).judged
    rw [unmarked, pending_nil, Monitor.enterEntry_judged] at ran
    rw [ne_eq, judgements_leaveEntry_eq_nil_iff, ran]
    simp

/-- A telling outside of every call. -/
def lonelyTelling : Lone Unit := .raise 0 0 .notInitialised fun _ => .done (.returned 0)

/-- A native that fails outside of every entry point, since its callback did. -/
def lonelyNative : Lone Unit :=
  .native 0 0
    (fun _ => .enter 0 0 (.done (.failed .notInitialised)) fun _ => .done (.failed .nativeFailed))
    fun _ => .done (.returned 0)

theorem forgotten_at_rest_iff_twoCallbacks :
    (twoCallbacks.run Monitor.bare .bare).desk.calls.calls = [] ∧
      (twoCallbacks.story .bare .bare).leftover false = false ∧
      ((twoCallbacks.run Monitor.bare .bare).desk.judged = false ↔
        (twoCallbacks.story .bare .bare).leftover false = false) := by
  have rest : (twoCallbacks.run Monitor.bare .bare).desk.calls.calls = [] := by decide +kernel
  exact ⟨rest, by decide +kernel, (forgotten_at_rest_iff twoCallbacks {} .system {} .bare rest).1⟩

/-- An entry point that fails of itself after a run. -/
def laterFailure (p : Lone Unit) : Story :=
  (enter 0 1 (.done (.failed .general)) fun _ => .done (.returned 0) : Lone Unit).story
    (p.run Monitor.bare .bare).desk .bare

/-- After either of them no call is open, and the next failure of an entry point is taken for
theirs. -/
theorem remembered_at_rest :
    (lonelyTelling.run Monitor.bare .bare).desk.calls.calls = [] ∧
      (lonelyNative.run Monitor.bare .bare).desk.calls.calls = [] ∧
      ¬ (∀ v ∈ (laterFailure lonelyTelling).visits [], v.judgements ≠ []) ∧
      ¬ (∀ v ∈ (laterFailure lonelyNative).visits [], v.judgements ≠ []) := by
  decide +kernel

end Program

end Postmortem
