import Postmortem.Proofs.Nesting

/-!
# The story of a run

A trace does not show where calls begin and end. A story does: it is the trace of a run with every
call around what happened in it.

* `Story.visits` are the runs of entry points in a story, each with what came before it.
* `Program.Tells`: a run and its story in big steps. What holds of every run is shown by induction
  on it.
* `Program.Tells.effects`: a story has the effects of the trace, in their order.
* `Program.Tells.calls_prefix`: calls that are open when a run starts are open when it ends.
-/

namespace Postmortem

/-- What happened in a run, in order. -/
inductive Story where
  | ended
  /-- Something that is neither a call nor a telling. -/
  | did (effects : List Effect) (rest : Story)
  /-- A machine told of a fault. -/
  | heard (verdict : Verdict) (effects : List Effect) (rest : Story)
  /-- An entry point ran. The effects are those of its end, and `last` says that no call was open
  any more. There is no outcome after a panic. -/
  | entry (body : Story) (outcome : Option Outcome) (effects : List Effect) (last : Bool)
      (rest : Story)
  | native (body : Story) (outcome : Option Outcome) (rest : Story)
  deriving DecidableEq

/-- What becomes of a fault on its way out. -/
inductive Mark where
  | judged
  /-- It came no further: a call succeeded, or the last one ended. -/
  | stopped
  deriving DecidableEq, Repr

namespace Mark

def ofEffects (es : List Effect) : List Mark := (Effect.judgements es).map fun _ => judged

def ofEnd : Option Outcome → Bool → List Mark
  | some (.returned _), _ => [stopped]
  | some (.failed _), last => if last then [stopped] else []
  | none, _ => []

/-- Whether a judged fault is on its way out after these marks, if it was so before them or not. -/
def pending (before : Bool) (ms : List Mark) : Bool := ms.getLast?.elim before (· = judged)

@[simp] theorem pending_nil (before : Bool) : pending before [] = before := rfl

@[simp] theorem pending_concat (before : Bool) (ms : List Mark) (m : Mark) :
    pending before (ms ++ [m]) = decide (m = judged) := by
  simp [pending]

theorem pending_false_iff {ms : List Mark} :
    pending false ms = true ↔ ms.getLast? = some judged := by
  unfold pending
  cases ms.getLast? <;> simp

theorem pending_append (before : Bool) (ms ns : List Mark) :
    pending before (ms ++ ns) = pending (pending before ms) ns := by
  rcases List.eq_nil_or_concat ns with rfl | ⟨ns, n, rfl⟩
  · simp
  · rw [List.concat_eq_append, ← List.append_assoc, pending_concat, pending_concat]

end Mark

/-- One run of an entry point, as its story tells it. -/
structure Visit where
  /-- The marks that were made before it. -/
  past : List Mark
  body : Story
  outcome : Option Outcome
  /-- What its end did. -/
  effects : List Effect

namespace Story

def append : Story → Story → Story
  | ended, t => t
  | did es rest, t => did es (rest.append t)
  | heard v es rest, t => heard v es (rest.append t)
  | entry body outcome es last rest, t => entry body outcome es last (rest.append t)
  | native body outcome rest, t => native body outcome (rest.append t)

def effects : Story → List Effect
  | ended => []
  | did es rest => es ++ rest.effects
  | heard _ es rest => es ++ rest.effects
  | entry body _ es _ rest => body.effects ++ es ++ rest.effects
  | native body _ rest => body.effects ++ rest.effects

def marks : Story → List Mark
  | ended => []
  | did es rest => Mark.ofEffects es ++ rest.marks
  | heard _ es rest => Mark.ofEffects es ++ rest.marks
  | entry body outcome es last rest =>
    body.marks ++ Mark.ofEffects es ++ Mark.ofEnd outcome last ++ rest.marks
  | native body outcome rest => body.marks ++ Mark.ofEnd outcome false ++ rest.marks

/-- The entry points that were run, at any depth, after a past. -/
def visits (past : List Mark) : Story → List Visit
  | ended => []
  | did es rest => rest.visits (past ++ Mark.ofEffects es)
  | heard _ es rest => rest.visits (past ++ Mark.ofEffects es)
  | entry body outcome es last rest =>
    ⟨past, body, outcome, es⟩ :: body.visits past ++
      rest.visits (past ++ (body.marks ++ Mark.ofEffects es ++ Mark.ofEnd outcome last))
  | native body outcome rest =>
    body.visits past ++ rest.visits (past ++ (body.marks ++ Mark.ofEnd outcome false))

/-- Whether a story that began and ended with no call open leaves a judged fault behind, one still
taken to be on its way out. An entry point leaves none. A telling outside of every call does, and so
does a native that fails, if its body does. -/
def leftover (before : Bool) : Story → Bool
  | ended => before
  | did _ rest => rest.leftover before
  | heard _ _ rest => rest.leftover true
  | entry body none _ _ rest => rest.leftover (Mark.pending before body.marks)
  | entry _ (some _) _ _ rest => rest.leftover false
  | native body outcome rest =>
    rest.leftover (Mark.pending before (body.marks ++ Mark.ofEnd outcome false))

@[simp] theorem effects_append (a b : Story) :
    (a.append b).effects = a.effects ++ b.effects := by
  induction a <;> simp_all [append, effects]

@[simp] theorem marks_append (a b : Story) : (a.append b).marks = a.marks ++ b.marks := by
  induction a <;> simp_all [append, marks]

@[simp] theorem visits_append (past : List Mark) (a b : Story) :
    (a.append b).visits past = a.visits past ++ b.visits (past ++ a.marks) := by
  induction a generalizing past <;> simp_all [append, visits, marks]

@[simp] theorem leftover_append (before : Bool) (a b : Story) :
    (a.append b).leftover before = b.leftover (a.leftover before) := by
  induction a generalizing before with
  | ended => rfl
  | did es rest ih => exact ih before
  | heard v es rest ih => exact ih true
  | entry body outcome es last rest _ ih => cases outcome <;> exact ih _
  | native body outcome rest _ ih => exact ih _

theorem judgements_effects_eq_nil_iff (t : Story) :
    Effect.judgements t.effects = [] ↔ .judged ∉ t.marks := by
  have ofEffects (es : List Effect) : .judged ∉ Mark.ofEffects es ↔ Effect.judgements es = [] := by
    simp [Mark.ofEffects, List.eq_nil_iff_forall_not_mem]
  have ofEnd (outcome : Option Outcome) (last : Bool) : .judged ∉ Mark.ofEnd outcome last := by
    rcases outcome with _ | _ | _ <;> cases last <;> simp [Mark.ofEnd]
  induction t with
  | ended => simp [marks, effects]
  | did es rest ih => simp [marks, effects, ofEffects, ih]
  | heard v es rest ih => simp [marks, effects, ofEffects, ih]
  | entry body outcome es last rest ihb ihr =>
    simp [marks, effects, ofEffects, ofEnd, ihb, ihr]
  | native body outcome rest ihb ihr => simp [marks, effects, ofEnd, ihb, ihr]

end Story

namespace Visit

/-- Every judgement between the start of the entry point and its return. -/
def judgements (v : Visit) : List Effect := Effect.judgements (v.body.effects ++ v.effects)

end Visit

namespace Run

/-- What the monitors did, without the notes of the program. -/
def effects {σ ν : Type} (r : Run σ ν) : List Effect := r.trace.filterMap Sum.getLeft?

@[simp] theorem effects_after {σ ν : Type} (r : Run σ ν) (trace : List (Effect ⊕ ν)) :
    (r.after trace).effects = trace.filterMap Sum.getLeft? ++ r.effects := by
  simp [effects, after]

@[simp] theorem effects_afterEffects {σ ν : Type} (r : Run σ ν) (es : List Effect) :
    (r.afterEffects es).effects = es ++ r.effects := by
  have lefts : List.filterMap (Sum.getLeft? ∘ (Sum.inl : Effect → Effect ⊕ ν)) es = es := by
    simp [Function.comp_def]
  simp [afterEffects, lefts]

end Run

namespace Program

variable {ν : Type}

/-- The story of a run against a monitor alone. -/
def story : Lone ν → Monitor → Host → Story
  | .done _, _, _ => .ended
  | .panic, _, _ => .ended
  | .note _ next, s, h => next.story s h
  | .change f next, s, h => next.story s (f h)
  | .inspect next, s, h => (next (some s) h).story s h
  | .tell n next, s, h => .did (s.take h n).2 (next.story (s.take h n).1 h)
  | .raise view index fault next, s, h =>
    let (verdict, d, effects) := s.hear h view index fault
    .heard verdict effects ((next (some verdict)).story d h)
  | .release view address caller body next, s, h =>
    let (d, effects) := s.checkRelease h view address caller
    let b := body.run d h
    .did effects <| (body.story d h).append <|
      match b.outcome with
      | none => .ended
      | some outcome => (next (some outcome)).story b.desk b.host
  | .enter view index body next, s, h =>
    let b := body.run (s.enterEntry h view index) h
    let inner := body.story (s.enterEntry h view index) h
    match b.outcome with
    | none => .entry inner none [] false .ended
    | some outcome =>
      let (d, effects) :=
        b.desk.leaveEntry b.host view index (entryGuard s h view index) outcome
      .entry inner (some outcome) effects d.calls.isEmpty ((next (some outcome)).story d b.host)
  | .native view index body next, s, h =>
    let d := s.enterNative h view index
    let g := nativeGuard s h view index
    match d.handler? (h.machine view).handle with
    | none =>
      let outcome := .failed .noCallback
      .native .ended (some outcome) ((next (some outcome)).story (d.leaveNative g outcome) h)
    | some handler =>
      let b := (body handler).run d h
      let inner := (body handler).story d h
      match b.outcome with
      | none => .native inner none .ended
      | some outcome =>
        .native inner (some outcome)
          ((next (some outcome)).story (b.desk.leaveNative g outcome) b.host)
  | .guarded body next, s, h =>
    let b := body.run s h
    (body.story s h).append ((next b.outcome).story b.desk b.host)
  | .request b _, _, _ => b.elim

section equations

variable (s : Monitor) (h : Host)

theorem story_release (view : Nat) (address : Cell) (caller : UInt64) (body : Lone ν)
    (next : Option Outcome → Lone ν) :
    (release view address caller body next).story s h =
      .did (s.checkRelease h view address caller).2
        ((body.story (s.checkRelease h view address caller).1 h).append
          (match body.run (s.checkRelease h view address caller).1 h with
          | ⟨none, _, _, _⟩ => .ended
          | ⟨some outcome, d, h', _⟩ => (next (some outcome)).story d h')) := by
  rcases hb : body.run (s.checkRelease h view address caller).1 h with ⟨outcome, d, h', trace⟩
  cases outcome <;> simp only [story, hb]

theorem story_enter (view : Nat) (index : Int32) (body : Lone ν)
    (next : Option Outcome → Lone ν) :
    (enter view index body next).story s h =
      match body.run (s.enterEntry h view index) h with
      | ⟨none, _, _, _⟩ =>
        .entry (body.story (s.enterEntry h view index) h) none [] false .ended
      | ⟨some outcome, d, h', _⟩ =>
        let left := d.leaveEntry h' view index (entryGuard s h view index) outcome
        .entry (body.story (s.enterEntry h view index) h) (some outcome) left.2
          left.1.calls.isEmpty ((next (some outcome)).story left.1 h') := by
  rcases hb : body.run (s.enterEntry h view index) h with ⟨outcome, d, h', trace⟩
  cases outcome <;> simp only [story, hb]

theorem story_native (view : Nat) (index : Int32) (body : String → Lone ν)
    (next : Option Outcome → Lone ν) :
    (native view index body next).story s h =
      match (handled (s.enterNative h view index) h view body).run
        (s.enterNative h view index) h with
      | ⟨none, _, _, _⟩ =>
        .native ((handled (s.enterNative h view index) h view body).story
          (s.enterNative h view index) h) none .ended
      | ⟨some outcome, d, h', _⟩ =>
        .native
          ((handled (s.enterNative h view index) h view body).story (s.enterNative h view index) h)
          (some outcome)
          ((next (some outcome)).story (d.leaveNative (nativeGuard s h view index) outcome)
            h') := by
  simp only [story, handled]
  cases (s.enterNative h view index).handler? (h.machine view).handle with
  | none => rfl
  | some handler =>
    rcases hb : (body handler).run (s.enterNative h view index) h with ⟨outcome, d, h', trace⟩
    cases outcome <;> simp only [Option.elim, hb]

end equations

/-- A run of a program that starts with a monitor and a host, with its story. The body of a call and
what comes after the call are runs of their own; after a panic nothing comes. -/
inductive Tells : Lone ν → Monitor → Host → Run Monitor ν → Story → Prop
  | done (outcome : Outcome) (s : Monitor) (h : Host) :
      Tells (.done outcome) s h ⟨some outcome, s, h, []⟩ .ended
  | panic (s : Monitor) (h : Host) : Tells .panic s h ⟨none, s, h, []⟩ .ended
  | note {next s h r t} (n : ν) (rest : Tells next s h r t) :
      Tells (.note n next) s h (r.after [.inr n]) t
  | change {next s h r t} (f : Host → Host) (rest : Tells next s (f h) r t) :
      Tells (.change f next) s h r t
  | inspect {next : Option Monitor → Host → Lone ν} {s h r t}
      (rest : Tells (next (some s) h) s h r t) : Tells (.inspect next) s h r t
  | tell {next s h r t} (n : Monitor.Notice) (rest : Tells next (s.take h n).1 h r t) :
      Tells (.tell n next) s h (r.afterEffects (s.take h n).2) (.did (s.take h n).2 t)
  | raise {next s h r t} (view : Nat) (index : Int32) (fault : Fault)
      (rest : Tells (next (some (s.hear h view index fault).1)) (s.hear h view index fault).2.1 h
        r t) :
      Tells (.raise view index fault next) s h (r.afterEffects (s.hear h view index fault).2.2)
        (.heard (s.hear h view index fault).1 (s.hear h view index fault).2.2 t)
  | releasePanicked {body next s h d h' trace b} (view : Nat) (address : Cell) (caller : UInt64)
      (inner : Tells body (s.checkRelease h view address caller).1 h ⟨none, d, h', trace⟩ b) :
      Tells (.release view address caller body next) s h
        (Run.afterEffects ⟨none, d, h', trace⟩ (s.checkRelease h view address caller).2)
        (.did (s.checkRelease h view address caller).2 (b.append .ended))
  | release {body next s h outcome d h' trace b r t} (view : Nat) (address : Cell)
      (caller : UInt64)
      (inner : Tells body (s.checkRelease h view address caller).1 h
        ⟨some outcome, d, h', trace⟩ b)
      (rest : Tells (next (some outcome)) d h' r t) :
      Tells (.release view address caller body next) s h
        ((r.after trace).afterEffects (s.checkRelease h view address caller).2)
        (.did (s.checkRelease h view address caller).2 (b.append t))
  | entryPanicked {body next s h d h' trace b} (view : Nat) (index : Int32)
      (inner : Tells body (s.enterEntry h view index) h ⟨none, d, h', trace⟩ b) :
      Tells (.enter view index body next) s h
        ⟨none, d.abandon (entryGuard s h view index), h', trace⟩ (.entry b none [] false .ended)
  | entry {body next s h outcome d h' trace b r t} (view : Nat) (index : Int32)
      (inner : Tells body (s.enterEntry h view index) h ⟨some outcome, d, h', trace⟩ b)
      (rest : Tells (next (some outcome))
        (d.leaveEntry h' view index (entryGuard s h view index) outcome).1 h' r t) :
      Tells (.enter view index body next) s h
        ((r.afterEffects
          (d.leaveEntry h' view index (entryGuard s h view index) outcome).2).after trace)
        (.entry b (some outcome)
          (d.leaveEntry h' view index (entryGuard s h view index) outcome).2
          (d.leaveEntry h' view index (entryGuard s h view index) outcome).1.calls.isEmpty t)
  | nativePanicked {body next s h d h' trace b} (view : Nat) (index : Int32)
      (inner : Tells (handled (s.enterNative h view index) h view body)
        (s.enterNative h view index) h ⟨none, d, h', trace⟩ b) :
      Tells (.native view index body next) s h
        ⟨none, d.abandon (nativeGuard s h view index), h', trace⟩ (.native b none .ended)
  | native {body next s h outcome d h' trace b r t} (view : Nat) (index : Int32)
      (inner : Tells (handled (s.enterNative h view index) h view body)
        (s.enterNative h view index) h ⟨some outcome, d, h', trace⟩ b)
      (rest : Tells (next (some outcome))
        (d.leaveNative (nativeGuard s h view index) outcome) h' r t) :
      Tells (.native view index body next) s h (r.after trace) (.native b (some outcome) t)
  | guarded {body next s h outcome d h' trace b r t}
      (inner : Tells body s h ⟨outcome, d, h', trace⟩ b) (rest : Tells (next outcome) d h' r t) :
      Tells (.guarded body next) s h (r.after trace) (b.append t)

/-- By induction on the program. -/
theorem tells_run (p : Lone ν) (s : Monitor) (h : Host) :
    Tells p s h (p.run s h) (p.story s h) := by
  induction p using induction_alone generalizing s h with
  | done outcome => exact .done outcome s h
  | panic => exact .panic s h
  | note n next ih => exact .note n (ih s h)
  | change f next ih => exact .change f (ih s (f h))
  | inspect next ih => exact .inspect (ih (some s) h s h)
  | tell n next ih => exact .tell n (ih (s.take h n).1 h)
  | raise view index fault next ih => exact .raise view index fault (ih _ _ h)
  | release view address caller body next ihb ihn =>
    have inner := ihb (s.checkRelease h view address caller).1 h
    rw [run_release, story_release]
    rcases hb : body.run (s.checkRelease h view address caller).1 h with ⟨outcome, d, h', trace⟩
    rw [hb] at inner
    cases outcome with
    | none => exact .releasePanicked view address caller inner
    | some outcome => exact .release view address caller inner (ihn (some outcome) d h')
  | enter view index body next ihb ihn =>
    have inner := ihb (s.enterEntry h view index) h
    rw [run_enter, story_enter]
    rcases hb : body.run (s.enterEntry h view index) h with ⟨outcome, d, h', trace⟩
    rw [hb] at inner
    cases outcome with
    | none => exact .entryPanicked view index inner
    | some outcome => exact .entry view index inner (ihn (some outcome) _ h')
  | native view index body next ihb ihn =>
    have inner := ihb (s.enterNative h view index) h (s.enterNative h view index) h
    rw [run_native, story_native]
    rcases hb : (handled (s.enterNative h view index) h view body).run
      (s.enterNative h view index) h with ⟨outcome, d, h', trace⟩
    rw [hb] at inner
    cases outcome with
    | none => exact .nativePanicked view index inner
    | some outcome => exact .native view index inner (ihn (some outcome) _ h')
  | guarded body next ihb ihn => exact .guarded (ihb s h) (ihn _ _ _)

variable {p : Lone ν} {s : Monitor} {h : Host} {r : Run Monitor ν} {t : Story}

/-- A program has one run and one story. -/
theorem Tells.determined (told : Tells p s h r t) : r = p.run s h ∧ t = p.story s h := by
  induction told with
  | done | panic => exact ⟨rfl, rfl⟩
  | note n _ ih | change f _ ih | inspect _ ih | tell n _ ih | raise view index fault _ ih =>
    obtain ⟨rfl, rfl⟩ := ih
    exact ⟨rfl, rfl⟩
  | releasePanicked view address caller _ ih =>
    obtain ⟨ran, rfl⟩ := ih
    rw [run_release, story_release, ← ran]
    exact ⟨rfl, rfl⟩
  | release view address caller _ _ ihb ihn =>
    obtain ⟨ran, rfl⟩ := ihb
    obtain ⟨rfl, rfl⟩ := ihn
    rw [run_release, story_release, ← ran]
    exact ⟨rfl, rfl⟩
  | entryPanicked view index _ ih =>
    obtain ⟨ran, rfl⟩ := ih
    rw [run_enter, story_enter, ← ran]
    exact ⟨rfl, rfl⟩
  | entry view index _ _ ihb ihn =>
    obtain ⟨ran, rfl⟩ := ihb
    obtain ⟨rfl, rfl⟩ := ihn
    rw [run_enter, story_enter, ← ran]
    exact ⟨rfl, rfl⟩
  | nativePanicked view index _ ih =>
    obtain ⟨ran, rfl⟩ := ih
    rw [run_native, story_native, ← ran]
    exact ⟨rfl, rfl⟩
  | native view index _ _ ihb ihn =>
    obtain ⟨ran, rfl⟩ := ihb
    obtain ⟨rfl, rfl⟩ := ihn
    rw [run_native, story_native, ← ran]
    exact ⟨rfl, rfl⟩
  | guarded _ _ ihb ihn =>
    obtain ⟨ran, rfl⟩ := ihb
    obtain ⟨rfl, rfl⟩ := ihn
    simp only [run, story, ← ran, and_self]

theorem Tells.effects (told : Tells p s h r t) : t.effects = r.effects := by
  induction told with
  | done => rfl
  | panic => rfl
  | note n _ ih => rw [Run.effects_after, ih]; rfl
  | change f _ ih => exact ih
  | inspect _ ih => exact ih
  | tell n _ ih => simp [Story.effects, ih]
  | raise view index fault _ ih => simp [Story.effects, ih]
  | releasePanicked view address caller _ ih =>
    simp [Story.effects, ih]
  | release view address caller _ _ ihb ihn => simp [Story.effects, ihb, ihn]; rfl
  | entryPanicked view index _ ih => simp [Story.effects, ih, Run.effects]
  | entry view index _ _ ihb ihn => simp [Story.effects, ihb, ihn]; rfl
  | nativePanicked view index _ ih => simp [Story.effects, ih, Run.effects]
  | native view index _ _ ihb ihn => simp [Story.effects, ihb, ihn]; rfl
  | guarded _ _ ihb ihn => simp [ihb, ihn]; rfl

/-- Every call restores the stack it began with, so only calls without a guard are added. -/
theorem Tells.calls_prefix (told : Tells p s h r t) : s.calls.calls <+: r.desk.calls.calls := by
  induction told with
  | done => exact List.prefix_refl _
  | panic => exact List.prefix_refl _
  | note n _ ih => exact ih
  | change f _ ih => exact ih
  | inspect _ ih => exact ih
  | tell n _ ih => exact (Monitor.calls_prefix_take _ _ n).trans ih
  | raise view index fault _ ih => rwa [Monitor.hear_calls] at ih
  | releasePanicked view address caller _ ih => rwa [Monitor.checkRelease_calls] at ih
  | release view address caller _ _ ihb ihn =>
    rw [Monitor.checkRelease_calls] at ihb
    exact ihb.trans ihn
  | entryPanicked view index _ ih => simp [Monitor.abandon, drop_enterEntry ih]
  | entry view index _ _ ihb ihn => rwa [Monitor.leaveEntry_calls, drop_enterEntry ihb] at ihn
  | nativePanicked view index _ ih => simp [Monitor.abandon, drop_enterNative ih]
  | native view index _ _ ihb ihn => rwa [Monitor.leaveNative_calls, drop_enterNative ihb] at ihn
  | guarded _ _ ihb ihn => exact ihb.trans ihn

end Program

end Postmortem
