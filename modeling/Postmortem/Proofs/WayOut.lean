import Postmortem.Proofs.Story

/-!
# The way out of a failure

A failure comes out through the calls around it, past machines that tell of it and past the ends of
entry points. Where hosts hand failures on in an orderly way, it is judged at the first of these
stations and at no other.

* `Program.Orderly`: a body calls nothing more after a failed call, and tells of faults only when it
  is about to fail itself.
* `Visit.JudgedOnce`: what the way out of a failing entry point is to be.
* `Program.judgedOnce_of_series`: it is so for every entry point, at any depth.
-/

namespace Postmortem

/-- Where a failure may be judged on its way out. -/
inductive Station where
  /-- A machine told of it and was given this verdict. -/
  | told (verdict : Verdict) (effects : List Effect)
  /-- An entry point ended with it. -/
  | left (effects : List Effect)

namespace Station

def effects : Station → List Effect
  | told _ es => es
  | left es => es

def Judges (st : Station) : Prop := ∃ e, Effect.judgements st.effects = [e]

/-- Nothing was done, and a telling was turned away. -/
def Silent : Station → Prop
  | told verdict es => verdict = .repeated ∧ es = []
  | left es => es = []

def isTold : Station → Bool
  | told _ _ => true
  | left _ => false

end Station

/-- The first station judges and no later one does. A way without stations is a failure that has
yet to come to one. -/
def JudgedFirst (way : List Station) : Prop :=
  way = [] ∨ ∃ first later, way = first :: later ∧ first.Judges ∧ ∀ st ∈ later, st.Silent

theorem JudgedFirst.concat {way : List Station} {st : Station} (h : JudgedFirst way)
    (judges : way = [] → st.Judges) (silent : way ≠ [] → st.Silent) :
    ∃ first later, way ++ [st] = first :: later ∧ first.Judges ∧ ∀ st ∈ later, st.Silent := by
  rcases h with rfl | ⟨first, later, rfl, hfirst, hlater⟩
  · exact ⟨st, [], rfl, judges rfl, by simp⟩
  · refine ⟨first, later ++ [st], rfl, hfirst, ?_⟩
    intro x hx
    rcases List.mem_append.mp hx with hx | hx
    · exact hlater x hx
    · rw [List.mem_singleton.mp hx]
      exact silent (by simp)

namespace Story

/-- The way out of the last failed call, innermost station first, and of the failure that follows
it. Every call begins anew. -/
def wayOut (way : List Station) : Story → List Station
  | ended => way
  | did _ rest => rest.wayOut way
  | heard verdict es rest => rest.wayOut (way ++ [.told verdict es])
  | entry body (some (.failed _)) es _ rest => rest.wayOut (body.wayOut [] ++ [.left es])
  | entry _ _ _ _ rest => rest.wayOut []
  | native body (some (.failed _)) rest => rest.wayOut (body.wayOut [])
  | native _ _ rest => rest.wayOut []

/-- Whether an entry point failed among the last calls, followed inward as long as they failed. -/
def entryFailed (before : Bool) : Story → Bool
  | ended => before
  | did _ rest => rest.entryFailed before
  | heard _ _ rest => rest.entryFailed before
  | entry _ (some (.failed _)) _ _ rest => rest.entryFailed true
  | entry _ _ _ _ rest => rest.entryFailed false
  | native body (some (.failed _)) rest => rest.entryFailed (body.entryFailed false)
  | native _ _ rest => rest.entryFailed false

/-- The tellings in a body itself, not in the calls it made. -/
def tellings : Story → List Station
  | ended => []
  | did _ rest => rest.tellings
  | heard verdict es rest => .told verdict es :: rest.tellings
  | entry _ _ _ _ rest => rest.tellings
  | native _ _ rest => rest.tellings

end Story

/-- The stations from where the failure of an entry point began to its own end. -/
def Visit.wayOut (v : Visit) : List Station := v.body.wayOut [] ++ [.left v.effects]

namespace Program

variable {ν : Type}

/-- Fails, and at most tells of faults before. -/
def Fails : Lone ν → Prop
  | .done (.failed _) => True
  | .note _ next => next.Fails
  | .change _ next => next.Fails
  | .inspect next => ∀ s h, (next (some s) h).Fails
  | .raise _ _ _ next => ∀ verdict, (next (some verdict)).Fails
  | _ => False

/-- Makes no call, and tells of faults only when it is about to fail. -/
def Closes : Lone ν → Prop
  | .done _ => True
  | .note _ next => next.Closes
  | .change _ next => next.Closes
  | .inspect next => ∀ s h, (next (some s) h).Closes
  | .raise _ _ _ next => ∀ verdict, (next (some verdict)).Fails
  | _ => False

/-- Makes calls until one fails, and then closes. -/
def Orderly : Lone ν → Prop
  | .done _ => True
  | .note _ next => next.Orderly
  | .change _ next => next.Orderly
  | .inspect next => ∀ s h, (next (some s) h).Orderly
  | .raise _ _ _ next => ∀ verdict, (next (some verdict)).Fails
  | .enter _ _ body next =>
    body.Orderly ∧ (∀ value, (next (some (.returned value))).Orderly) ∧
      ∀ fault, (next (some (.failed fault))).Closes
  | .native _ _ body next =>
    (∀ handler, (body handler).Orderly) ∧ (∀ value, (next (some (.returned value))).Orderly) ∧
      ∀ fault, (next (some (.failed fault))).Closes
  | _ => False

/-- Runs entry points one after another, whatever comes of them. -/
def Series : Lone ν → Prop
  | .done _ => True
  | .note _ next => next.Series
  | .change _ next => next.Series
  | .inspect next => ∀ s h, (next (some s) h).Series
  | .enter _ _ body next => body.Orderly ∧ ∀ outcome, (next (some outcome)).Series
  | _ => False

theorem Fails.closes {p : Lone ν} (hp : p.Fails) : p.Closes := by
  induction p using induction_alone with
  | done outcome => trivial
  | note n next ih => exact ih hp
  | change f next ih => exact ih hp
  | inspect next ih => exact fun s h => ih (some s) h (hp s h)
  | raise view index fault next ih => exact hp
  | _ => exact hp.elim

theorem handled_orderly {body : String → Lone ν} (hb : ∀ handler, (body handler).Orderly)
    (s : Monitor) (h : Host) (view : Nat) : (handled s h view body).Orderly := by
  unfold handled
  cases s.handler? (h.machine view).handle with
  | none => trivial
  | some handler => exact hb handler

end Program

/-- A monitor and the way out so far of a failure that it sees come out: it remembers a judged fault
exactly if the failure has come to a station. `below` says that an entry point failed on the way. -/
structure OnWay (way : List Station) (below : Bool) (s : Monitor) : Prop where
  first : JudgedFirst way
  judged : s.judged = true ↔ way ≠ []
  left : below = true → way ≠ []
  told : below = false → ∀ st ∈ way, st.isTold

namespace OnWay

variable {way : List Station} {below : Bool} {s : Monitor}

theorem clear (hs : s.judged = false) : OnWay [] false s :=
  ⟨.inl rfl, by simp [hs], nofun, by simp⟩

theorem judged_eq_false (on : OnWay way below s) (h : way = []) : s.judged = false := by
  have := on.judged
  simp_all

theorem judged_eq_true (on : OnWay way below s) (h : way ≠ []) : s.judged = true :=
  on.judged.mpr h

/-- A telling judges at the start of the way and is turned away further out. -/
theorem told_silent (on : OnWay way below s) (h : Host) (view : Nat) (index : Int32)
    (fault : Fault) (further : way ≠ []) :
    (Station.told (s.hear h view index fault).1 (s.hear h view index fault).2.2).Silent :=
  have judged := on.judged_eq_true further
  ⟨(s.hear_repeated_iff h view index fault).mpr judged, Monitor.hear_of_judged judged ..⟩

theorem hear (on : OnWay way below s) (h : Host) (view : Nat) (index : Int32) (fault : Fault) :
    OnWay (way ++ [.told (s.hear h view index fault).1 (s.hear h view index fault).2.2]) below
      (s.hear h view index fault).2.1 where
  first := .inr <| on.first.concat
    (fun start => Monitor.judgements_hear (on.judged_eq_false start) ..)
    (fun further => on.told_silent h view index fault further)
  judged := by simp
  left _ := by simp
  told hb := by
    intro st hst
    rcases List.mem_append.mp hst with hst | hst
    · exact on.told hb st hst
    · rw [List.mem_singleton.mp hst]
      rfl

theorem left_silent (on : OnWay way below s) (h : Host) (view : Nat) (index : Int32) (g : Guard)
    (fault : Fault) (further : way ≠ []) :
    (Station.left (s.leaveEntry h view index g (.failed fault)).2).Silent :=
  Monitor.leaveEntry_effects_of_judged (on.judged_eq_true further) ..

/-- The end of an entry point judges at the start of the way and does nothing further out. -/
theorem leave_first (on : OnWay way below s) (h : Host) (view : Nat) (index : Int32) (g : Guard)
    (fault : Fault) :
    ∃ first later,
      way ++ [.left (s.leaveEntry h view index g (.failed fault)).2] = first :: later ∧
        first.Judges ∧ ∀ st ∈ later, st.Silent :=
  on.first.concat
    (fun start => Monitor.judgements_leaveEntry (on.judged_eq_false start) ..)
    (fun further => on.left_silent h view index g fault further)

theorem leaveEntry (on : OnWay way below s) (h : Host) (view : Nat) (index : Int32) (g : Guard)
    (fault : Fault) (inside : (s.calls.drop g).calls ≠ []) :
    OnWay (way ++ [.left (s.leaveEntry h view index g (.failed fault)).2]) true
      (s.leaveEntry h view index g (.failed fault)).1 where
  first := .inr (on.leave_first h view index g fault)
  judged := by
    rw [Monitor.leaveEntry_failed_judged]
    simp [CallStack.isEmpty, inside]
  left _ := by simp
  told := nofun

theorem leaveNative (on : OnWay way below s) (g : Guard) (fault : Fault) :
    OnWay way below (s.leaveNative g (.failed fault)) :=
  ⟨on.first, on.judged, on.left, on.told⟩

end OnWay

/-- How a body that began with nothing judged comes to fail. -/
structure ComesOut {ν : Type} (way : List Station) (below : Bool) (t : Story) (r : Run Monitor ν) :
    Prop where
  onWay : ∀ fault, r.outcome = some (.failed fault) →
    OnWay (t.wayOut way) (t.entryFailed below) r.desk
  silent : ∀ fault, r.outcome = some (.failed fault) → t.entryFailed below = true →
    ∀ st ∈ t.tellings, st.Silent

namespace Program

variable {ν : Type}

theorem Tells.of_closes {p : Lone ν} {s : Monitor} {h : Host} {r : Run Monitor ν} {t : Story}
    (told : Tells p s h r t) (hp : p.Closes) (past : List Mark) (below : Bool) :
    t.visits past = [] ∧ t.entryFailed below = below := by
  induction told generalizing past with
  | done => exact ⟨rfl, rfl⟩
  | note n _ ih => exact ih hp past
  | change f _ ih => exact ih hp past
  | @inspect next s h r t _ ih => exact ih (hp s h) past
  | raise view index fault _ ih => exact ih (hp _).closes _
  | _ => exact hp.elim

/-- Only tellings are left, and each of them is a station. -/
theorem Tells.comesOut_of_closes {p : Lone ν} {s : Monitor} {h : Host} {r : Run Monitor ν}
    {t : Story} (told : Tells p s h r t) (hp : p.Closes) {way : List Station} {below : Bool}
    (on : OnWay way below s) : ComesOut way below t r := by
  induction told generalizing way with
  | done => exact ⟨fun _ _ => on, fun _ _ _ => by simp [Story.tellings]⟩
  | note n _ ih => exact ⟨(ih hp on).onWay, (ih hp on).silent⟩
  | change f _ ih => exact ih hp on
  | @inspect next s h r t _ ih => exact ih (hp s h) on
  | @raise next s h r t view index fault rest ih =>
    have closes := (hp (s.hear h view index fault).1).closes
    have out := ih closes (on.hear h view index fault)
    refine ⟨out.onWay, ?_⟩
    intro f failed hb st hst
    have further : way ≠ [] := on.left ((rest.of_closes closes [] below).2.symm.trans hb)
    rcases List.mem_cons.mp hst with rfl | hst
    · exact on.told_silent h view index fault further
    · exact out.silent f failed hb st hst
  | _ => exact hp.elim

end Program

/-- What a visit of an entry point that failed shows of the way out. -/
structure Visit.JudgedOnce (v : Visit) : Prop where
  /-- One station judges, and none further out does anything. -/
  first : ∃ first later, v.wayOut = first :: later ∧ first.Judges ∧ ∀ st ∈ later, st.Silent
  /-- Behind an entry point that failed, neither a telling in the body nor the end does anything. -/
  below : v.body.entryFailed false = true → ∀ st ∈ v.body.tellings ++ [.left v.effects], st.Silent
  /-- Otherwise only tellings come before the end. -/
  here : v.body.entryFailed false = false → ∀ st ∈ v.body.wayOut [], st.isTold

theorem ComesOut.judgedOnce {ν : Type} {t : Story} {d : Monitor} {h : Host}
    {trace : List (Effect ⊕ ν)} {fault : Fault}
    (out : ComesOut [] false t (⟨some (.failed fault), d, h, trace⟩ : Run Monitor ν)) (view : Nat)
    (index : Int32) (g : Guard) (past : List Mark) :
    Visit.JudgedOnce
      ⟨past, t, some (.failed fault), (d.leaveEntry h view index g (.failed fault)).2⟩ where
  first := (out.onWay fault rfl).leave_first h view index g fault
  below hb := by
    intro st hst
    rcases List.mem_append.mp hst with hst | hst
    · exact out.silent fault rfl hb st hst
    · rw [List.mem_singleton.mp hst]
      have on := out.onWay fault rfl
      exact on.left_silent h view index g fault (on.left hb)
  here := (out.onWay fault rfl).told

namespace Story

/-- Every entry point of a story that failed was judged once on the way out. -/
def EachJudgedOnce (t : Story) : Prop :=
  ∀ past, ∀ v ∈ t.visits past, ∀ fault, v.outcome = some (.failed fault) → v.JudgedOnce

theorem EachJudgedOnce.ended : EachJudgedOnce .ended := by
  intro past v hv
  exact absurd hv List.not_mem_nil

theorem EachJudgedOnce.entry {body rest : Story} {outcome : Option Outcome} {es : List Effect}
    {last : Bool}
    (here : ∀ past fault, outcome = some (.failed fault) →
      Visit.JudgedOnce ⟨past, body, outcome, es⟩)
    (hb : body.EachJudgedOnce) (hr : rest.EachJudgedOnce) :
    (Story.entry body outcome es last rest).EachJudgedOnce := by
  intro past v hv fault failed
  rcases List.mem_append.mp hv with hv | hv
  · rcases List.mem_cons.mp hv with rfl | hv
    · exact here past fault failed
    · exact hb past v hv fault failed
  · exact hr _ v hv fault failed

theorem EachJudgedOnce.native {body rest : Story} {outcome : Option Outcome}
    (hb : body.EachJudgedOnce) (hr : rest.EachJudgedOnce) :
    (Story.native body outcome rest).EachJudgedOnce := by
  intro past v hv fault failed
  rcases List.mem_append.mp hv with hv | hv
  · exact hb past v hv fault failed
  · exact hr _ v hv fault failed

end Story

namespace Program

variable {ν : Type}

variable {p : Lone ν} {s : Monitor} {h : Host} {r : Run Monitor ν} {t : Story}

theorem Tells.eachJudgedOnce_of_closes (told : Tells p s h r t) (hp : p.Closes) :
    t.EachJudgedOnce := by
  intro past v hv
  rw [(told.of_closes hp past false).1] at hv
  exact absurd hv List.not_mem_nil

/-- A body begins with nothing judged: each call before it in the same body succeeded, and success
forgets. -/
theorem Tells.comesOut (told : Tells p s h r t) (hp : p.Orderly) (clear : s.judged = false)
    (inside : s.calls.calls ≠ []) : ComesOut [] false t r ∧ t.EachJudgedOnce := by
  induction told with
  | done outcome s h =>
    exact ⟨(Tells.done outcome s h).comesOut_of_closes trivial (OnWay.clear clear), .ended⟩
  | note n _ ih =>
    obtain ⟨out, each⟩ := ih hp clear inside
    exact ⟨⟨out.onWay, out.silent⟩, each⟩
  | change f _ ih => exact ih hp clear inside
  | @inspect next s h r t _ ih => exact ih (hp s h) clear inside
  | @raise next s h r t view index fault rest _ =>
    have told := Tells.raise view index fault rest
    exact ⟨told.comesOut_of_closes hp (OnWay.clear clear), told.eachJudgedOnce_of_closes hp⟩
  | @entryPanicked body next s h d h' trace b view index _ ih =>
    obtain ⟨_, each⟩ := ih hp.1 clear (s.enterEntry_calls_ne_nil h view index)
    exact ⟨⟨nofun, nofun⟩, each.entry nofun .ended⟩
  | @entry body next s h outcome d h' trace b r t view index inner rest ihb ihn =>
    obtain ⟨bodyOrderly, onReturn, onFailure⟩ := hp
    obtain ⟨out, each⟩ := ihb bodyOrderly clear (s.enterEntry_calls_ne_nil h view index)
    have restored := drop_enterEntry inner.calls_prefix
    cases outcome with
    | returned value =>
      obtain ⟨outNext, eachNext⟩ := ihn (onReturn value) rfl
        (by rwa [Monitor.leaveEntry_calls, restored])
      exact ⟨⟨outNext.onWay, outNext.silent⟩, each.entry nofun eachNext⟩
    | failed fault =>
      have on := (out.onWay fault rfl).leaveEntry h' view index (entryGuard s h view index) fault
        (by rwa [restored])
      have outNext := rest.comesOut_of_closes (onFailure fault) on
      have eachNext := rest.eachJudgedOnce_of_closes (onFailure fault)
      refine ⟨⟨outNext.onWay, outNext.silent⟩, each.entry ?_ eachNext⟩
      intro past f failed
      exact out.judgedOnce view index _ past
  | @nativePanicked body next s h d h' trace b view index _ ih =>
    obtain ⟨_, each⟩ := ih (handled_orderly hp.1 _ h view) clear
      (s.enterNative_calls_ne_nil h view index)
    exact ⟨⟨nofun, nofun⟩, each.native .ended⟩
  | @native body next s h outcome d h' trace b r t view index inner rest ihb ihn =>
    obtain ⟨bodyOrderly, onReturn, onFailure⟩ := hp
    obtain ⟨out, each⟩ := ihb (handled_orderly bodyOrderly _ h view) clear
      (s.enterNative_calls_ne_nil h view index)
    have restored := drop_enterNative inner.calls_prefix
    cases outcome with
    | returned value =>
      obtain ⟨outNext, eachNext⟩ := ihn (onReturn value) rfl
        (by rwa [Monitor.leaveNative_calls, restored])
      exact ⟨⟨outNext.onWay, outNext.silent⟩, each.native eachNext⟩
    | failed fault =>
      have on := (out.onWay fault rfl).leaveNative (nativeGuard s h view index) fault
      have outNext := rest.comesOut_of_closes (onFailure fault) on
      have eachNext := rest.eachJudgedOnce_of_closes (onFailure fault)
      exact ⟨⟨outNext.onWay, outNext.silent⟩, each.native eachNext⟩
  | _ => exact hp.elim

/-- After an entry point at the top no call is open, so whatever came of it is forgotten. -/
theorem Tells.eachJudgedOnce (told : Tells p s h r t) (hp : p.Series) (clear : s.judged = false)
    (idle : s.calls.calls = []) : t.EachJudgedOnce := by
  induction told with
  | done => exact .ended
  | note n _ ih => exact ih hp clear idle
  | change f _ ih => exact ih hp clear idle
  | @inspect next s h r t _ ih => exact ih (hp s h) clear idle
  | @entryPanicked body next s h d h' trace b view index inner _ =>
    obtain ⟨_, each⟩ := inner.comesOut hp.1 clear (s.enterEntry_calls_ne_nil h view index)
    exact each.entry nofun .ended
  | @entry body next s h outcome d h' trace b r t view index inner _ _ ihn =>
    obtain ⟨bodyOrderly, onward⟩ := hp
    obtain ⟨out, each⟩ :=
      inner.comesOut bodyOrderly clear (s.enterEntry_calls_ne_nil h view index)
    have left : (d.leaveEntry h' view index (entryGuard s h view index) outcome).1.calls =
        s.calls := by
      rw [Monitor.leaveEntry_calls, drop_enterEntry inner.calls_prefix]
    have idleAgain :
        (d.leaveEntry h' view index (entryGuard s h view index) outcome).1.calls.calls = [] := by
      rw [left, idle]
    have eachNext := ihn (onward outcome) (Monitor.leaveEntry_judged_of_idle idleAgain) idleAgain
    refine each.entry ?_ eachNext
    rintro past fault ⟨rfl⟩
    exact out.judgedOnce view index _ past
  | _ => exact hp.elim

/-- **A failure is judged once, as far in as it can be.** However deep orderly hosts nest their
calls, the stations of a failure up to the end of an entry point are one that judges and then only
silent ones. Behind an entry point further in, neither a telling in the body nor the end judges.
Otherwise tellings alone come before the end. -/
theorem judgedOnce_of_series (p : Lone ν) (hp : p.Series) (settings : Settings)
    (services : Services) (env : Environment) (h : Host) :
    ∀ v ∈ (p.story (Monitor.start settings services env) h).visits [],
      ∀ fault, v.outcome = some (.failed fault) → v.JudgedOnce :=
  (tells_run p (Monitor.start settings services env) h).eachJudgedOnce hp rfl rfl []

/-- A callback that fails under a native, which tells of it again and fails too. What comes of the
entry point around them is absorbed, and another one fails of itself. -/
def relayed : Lone Unit :=
  .enter 0 0
    (.native 0 0
      (fun _ => .enter 0 1 (.done (.failed .notInitialised)) fun outcome =>
        match outcome with
        | some (.failed _) =>
          .raise 0 0 .nativeFailed fun _ => .done (.failed .nativeFailed)
        | _ => .done (.returned 0))
      fun outcome => .done (outcome.getD (.returned 0)))
    fun _ => .enter 0 2 (.done (.failed .general)) fun _ => .done (.returned 0)

theorem judgedOnce_of_series_relayed :
    relayed.Series ∧
      ∃ v ∈ (relayed.story Monitor.bare .bare).visits [],
        v.outcome = some (.failed .nativeFailed) ∧ v.body.entryFailed false = true ∧
        v.wayOut.length = 3 ∧ v.JudgedOnce := by
  have series : relayed.Series :=
    ⟨⟨fun _ => ⟨trivial, fun _ => trivial, fun _ _ => trivial⟩, fun _ => trivial, fun _ => trivial⟩,
      fun _ => ⟨trivial, fun _ => trivial⟩⟩
  have around : ∃ v ∈ (relayed.story Monitor.bare .bare).visits [],
      v.outcome = some (.failed .nativeFailed) ∧ v.body.entryFailed false = true ∧
      v.wayOut.length = 3 := by decide +kernel
  obtain ⟨v, visited, failed, behind, stations⟩ := around
  exact ⟨series, v, visited, failed, behind, stations,
    judgedOnce_of_series relayed series {} .system {} .bare v visited .nativeFailed failed⟩

end Program

end Postmortem
