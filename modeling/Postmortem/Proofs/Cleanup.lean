import Postmortem.Proofs.Reports

/-!
# Cleanup behind a failure

A body that a failure comes through may clean up before it hands the failure on. The monitor takes
any call that succeeds for one that absorbed the failure, so the next entry point that the failure
comes through judges it anew.

* `Story.Relays`: one failure comes out, and every call around it hands it on.
* `Program.relayed_failure_reports`: how often it is reported on its way.
-/

namespace Postmortem

open Effect

namespace Story

/-- No entry point fails and no machine tells of a fault. -/
def quiet : Story → Bool
  | ended => true
  | did _ rest => rest.quiet
  | heard _ _ _ => false
  | entry _ (some (.failed _)) _ _ _ => false
  | entry body _ _ _ rest => body.quiet && rest.quiet
  | native body _ rest => body.quiet && rest.quiet

/-- Some call succeeds. -/
def succeeds : Story → Bool
  | ended => false
  | did _ rest => rest.succeeds
  | heard _ _ rest => rest.succeeds
  | entry _ (some (.returned _)) _ _ _ => true
  | entry body _ _ _ rest => body.succeeds || rest.succeeds
  | native _ (some (.returned _)) _ => true
  | native body _ rest => body.succeeds || rest.succeeds

theorem quiet_entry {body rest : Story} {outcome : Option Outcome} {es : List Effect}
    {last : Bool} :
    (entry body outcome es last rest).quiet ↔
      body.quiet ∧ (∀ f, outcome ≠ some (.failed f)) ∧ rest.quiet := by
  rcases outcome with _ | _ | _ <;> simp [quiet]

theorem quiet_native {body rest : Story} {outcome : Option Outcome} :
    (native body outcome rest).quiet ↔ body.quiet ∧ rest.quiet := by
  simp [quiet]

@[simp] theorem quiet_append (a b : Story) : (a.append b).quiet = (a.quiet && b.quiet) := by
  induction a with
  | ended => rfl
  | did es rest ih => exact ih
  | heard v es rest => rfl
  | entry body outcome es last rest _ ih =>
    rcases outcome with _ | _ | _ <;> simp [append, quiet, ih, Bool.and_assoc]
  | native body outcome rest _ ih => simp [append, quiet, ih, Bool.and_assoc]

@[simp] theorem append_ended (a : Story) : a.append .ended = a := by
  induction a <;> simp_all [append]

@[simp] theorem succeeds_append (a b : Story) :
    (a.append b).succeeds = (a.succeeds || b.succeeds) := by
  induction a with
  | ended => rfl
  | did es rest ih => exact ih
  | heard v es rest ih => exact ih
  | entry body outcome es last rest _ ih =>
    rcases outcome with _ | _ | _ <;> simp [append, succeeds, ih, Bool.or_assoc]
  | native body outcome rest _ ih =>
    rcases outcome with _ | _ | _ <;> simp [append, succeeds, ih, Bool.or_assoc]

/-- One entry point fails of itself, and every call around it hands the failure on as it is. Before
these calls and behind them all is quiet. At the end of an entry point that the failure comes
through it matters whether a call has `lately` succeeded behind it, since it came out of the entry
point before. `again` counts the entry points where one has. -/
inductive Relays (fault : Fault) : (again : Nat) → (lately : Bool) → Story → Prop
  | did {again lately rest} (es : List Effect) (later : Relays fault again lately rest) :
      Relays fault again lately (.did es rest)
  | afterEntry {again lately body outcome rest} (es : List Effect) (last : Bool)
      (before : body.quiet) (other : ∀ f, outcome ≠ some (.failed f))
      (later : Relays fault again lately rest) :
      Relays fault again lately (.entry body outcome es last rest)
  | afterNative {again lately body rest} (outcome : Option Outcome) (before : body.quiet)
      (later : Relays fault again lately rest) :
      Relays fault again lately (.native body outcome rest)
  | raised {lately body rest} (es : List Effect) (last : Bool) (before : body.quiet)
      (behind : rest.quiet) (since : rest.succeeds = lately) :
      Relays fault 0 lately (.entry body (some (.failed fault)) es last rest)
  | remembered {again lately body rest} (es : List Effect) (last : Bool)
      (inner : Relays fault again false body) (behind : rest.quiet)
      (since : rest.succeeds = lately) :
      Relays fault again lately (.entry body (some (.failed fault)) es last rest)
  | forgotten {again lately body rest} (es : List Effect) (last : Bool)
      (inner : Relays fault again true body) (behind : rest.quiet)
      (since : rest.succeeds = lately) :
      Relays fault (again + 1) lately (.entry body (some (.failed fault)) es last rest)
  | native {again inside lately body rest} (inner : Relays fault again inside body)
      (behind : rest.quiet) (since : (inside || rest.succeeds) = lately) :
      Relays fault again lately (.native body (some (.failed fault)) rest)

theorem Relays.of_append {fault : Fault} {again : Nat} {lately : Bool} {a b : Story}
    (h : Relays fault again lately (a.append b)) :
    (a.quiet ∧ Relays fault again lately b) ∨
      ∃ before, Relays fault again before a ∧ b.quiet ∧ lately = (before || b.succeeds) := by
  induction a generalizing again lately with
  | ended => exact .inl ⟨rfl, h⟩
  | did es rest ih =>
    cases h with
    | did _ later =>
      rcases ih later with ⟨quiet, behind⟩ | ⟨before, inner, quiet, rfl⟩
      · exact .inl ⟨quiet, behind⟩
      · exact .inr ⟨before, .did es inner, quiet, rfl⟩
  | heard v es rest => cases h
  | entry body outcome es last rest _ ih =>
    cases h with
    | afterEntry _ _ before other later =>
      rcases ih later with ⟨quiet, behind⟩ | ⟨lately', inner, quiet, rfl⟩
      · exact .inl ⟨quiet_entry.mpr ⟨before, other, quiet⟩, behind⟩
      · exact .inr ⟨lately', .afterEntry es last before other inner, quiet, rfl⟩
    | raised _ _ before behind since =>
      rw [quiet_append, Bool.and_eq_true] at behind
      refine .inr ⟨_, .raised es last before behind.1 rfl, behind.2, ?_⟩
      rw [← since, succeeds_append]
    | remembered _ _ inner behind since =>
      rw [quiet_append, Bool.and_eq_true] at behind
      refine .inr ⟨_, .remembered es last inner behind.1 rfl, behind.2, ?_⟩
      rw [← since, succeeds_append]
    | forgotten _ _ inner behind since =>
      rw [quiet_append, Bool.and_eq_true] at behind
      refine .inr ⟨_, .forgotten es last inner behind.1 rfl, behind.2, ?_⟩
      rw [← since, succeeds_append]
  | native body outcome rest _ ih =>
    cases h with
    | afterNative _ before later =>
      rcases ih later with ⟨quiet, behind⟩ | ⟨lately', inner, quiet, rfl⟩
      · exact .inl ⟨quiet_native.mpr ⟨before, quiet⟩, behind⟩
      · exact .inr ⟨lately', .afterNative outcome before inner, quiet, rfl⟩
    | native inner behind since =>
      rw [quiet_append, Bool.and_eq_true] at behind
      refine .inr ⟨_, .native inner behind.1 rfl, behind.2, ?_⟩
      rw [← since, succeeds_append, Bool.or_assoc]

end Story

/-- So many judgements, all of one fault. -/
structure JudgedTimes (fault : Fault) (times : Nat) (es : List Effect) : Prop where
  times : (judgements es).length = times
  same : ∀ e ∈ judgements es, ∃ owner index verdict, e = .judged owner index fault verdict

namespace JudgedTimes

variable {fault : Fault} {m n : Nat} {es fs : List Effect}

theorem none (nothing : judgements es = []) : JudgedTimes fault 0 es := by
  constructor <;> simp [nothing]

theorem append (he : JudgedTimes fault m es) (hf : JudgedTimes fault n fs) :
    JudgedTimes fault (m + n) (es ++ fs) where
  times := by simp [he.times, hf.times]
  same := by
    rw [judgements_append, List.forall_mem_append]
    exact ⟨he.same, hf.same⟩

/-- Where no debugger detaches, every judgement is a report. -/
theorem reports {settings : Settings} (he : JudgedTimes fault n es) (ha : Accounted settings es)
    (genuine : ∀ index, fault.isDetach index settings.detachIndex = false) :
    es.countP isReport = n := by
  rw [← he.times, judgements, ← List.countP_eq_length_filter]
  apply List.countP_congr
  intro e hm
  cases e with
  | judged owner index f verdict =>
    obtain ⟨_, _, _, same⟩ := he.same _ (List.mem_filter.mpr ⟨hm, rfl⟩)
    cases same
    have unsuppressed : verdict ≠ .suppressed := by
      rw [ne_eq, ha.detached owner index fault verdict hm, genuine]
      exact Bool.false_ne_true
    simp [isReport, isJudgement, unsuppressed]
  | _ => simp [isReport, isJudgement]

end JudgedTimes

/-- The end of an entry point judges its failure unless a judged fault is on its way out. -/
theorem Monitor.judgedTimes_leaveEntry (s : Monitor) (h : Host) (view : Nat) (index : Int32)
    (g : Guard) (fault : Fault) :
    JudgedTimes fault (!s.judged).toNat (s.leaveEntry h view index g (.failed fault)).2 := by
  cases judged : s.judged with
  | true => exact .none (by rw [leaveEntry_effects_of_judged judged]; rfl)
  | false =>
    have once : judgements (s.leaveEntry h view index g (.failed fault)).2 =
        [.judged (h.machine view).handle index fault (s.verdict index fault)] := by
      simp [leaveEntry, conclude, judged, judgements_judge]
    refine ⟨by rw [once]; rfl, ?_⟩
    rw [once]
    intro e he
    exact ⟨_, _, _, List.mem_singleton.mp he⟩

namespace Program

variable {ν : Type} {p : Lone ν} {s : Monitor} {h : Host} {r : Run Monitor ν} {t : Story}

/-- Nothing is judged where all is quiet, and a judged fault is forgotten as soon as a call
succeeds. -/
theorem Tells.of_quiet (told : Tells p s h r t) (quiet : t.quiet) :
    judgements t.effects = [] ∧ r.desk.judged = (s.judged && !t.succeeds) := by
  induction told with
  | done | panic => exact ⟨rfl, (Bool.and_true _).symm⟩
  | note n _ ih => exact ih quiet
  | change f _ ih => exact ih quiet
  | inspect _ ih => exact ih quiet
  | tell n _ ih =>
    obtain ⟨nothing, judged⟩ := ih quiet
    rw [Monitor.take_judged] at judged
    exact ⟨by rw [Story.effects, judgements_append, Monitor.judgements_take, nothing]; rfl, judged⟩
  | raise => cases quiet
  | releasePanicked view address caller _ ih =>
    obtain ⟨nothing, judged⟩ := ih (by simpa [Story.quiet] using quiet)
    exact ⟨by simpa [Story.effects] using nothing, by simpa [Story.succeeds] using judged⟩
  | @release body next s h outcome d h' trace b r t view address caller _ _ ihb ihn =>
    rw [Story.quiet, Story.quiet_append, Bool.and_eq_true] at quiet
    obtain ⟨nothingInside, (inside : d.judged = _)⟩ := ihb quiet.1
    obtain ⟨nothing, judged⟩ := ihn quiet.2
    refine ⟨by simp [Story.effects, nothingInside, nothing], ?_⟩
    rw [Monitor.checkRelease_judged] at inside
    simp [Story.succeeds, judged, inside, Bool.and_assoc]
  | entryPanicked view index _ ih =>
    obtain ⟨nothing, judged⟩ := ih (by simpa [Story.quiet] using quiet)
    exact ⟨by simpa [Story.effects] using nothing, by simpa [Story.succeeds] using judged⟩
  | @entry body next s h outcome d h' trace b r t view index _ _ ihb ihn =>
    cases outcome with
    | failed fault => cases quiet
    | returned value =>
      obtain ⟨before, _, behind⟩ := Story.quiet_entry.mp quiet
      obtain ⟨nothingInside, _⟩ := ihb before
      obtain ⟨nothing, judged⟩ := ihn behind
      refine ⟨by simp [Story.effects, nothingInside, nothing]; rfl, ?_⟩
      have forgotten : (d.leaveEntry h' view index (entryGuard s h view index)
        (.returned value)).1.judged = false := rfl
      simp [Story.succeeds, judged, forgotten]
  | nativePanicked view index _ ih =>
    obtain ⟨nothing, judged⟩ := ih (by simpa [Story.quiet] using quiet)
    exact ⟨by simpa [Story.effects] using nothing, by simpa [Story.succeeds] using judged⟩
  | @native body next s h outcome d h' trace b r t view index _ _ ihb ihn =>
    obtain ⟨before, behind⟩ := Story.quiet_native.mp quiet
    obtain ⟨nothingInside, (inside : d.judged = _)⟩ := ihb before
    obtain ⟨nothing, judged⟩ := ihn behind
    refine ⟨by simp [Story.effects, nothingInside, nothing], ?_⟩
    cases outcome with
    | returned value => simpa [Story.succeeds, Monitor.leaveNative, Monitor.abandon] using judged
    | failed fault =>
      have kept :
          (d.leaveNative (nativeGuard s h view index) (.failed fault)).judged = d.judged := rfl
      simp [Story.succeeds, judged, kept, inside, Bool.and_assoc]
  | @guarded body next s h outcome d h' trace b r t _ _ ihb ihn =>
    rw [Story.quiet_append, Bool.and_eq_true] at quiet
    obtain ⟨nothingInside, (inside : d.judged = _)⟩ := ihb quiet.1
    obtain ⟨nothing, judged⟩ := ihn quiet.2
    refine ⟨by simp [nothingInside, nothing], ?_⟩
    simp [judged, inside, Bool.and_assoc]

/-- What is known of a failure that has come out: how often it was judged, and whether the monitor
remembers it, which is known only within a call. -/
structure Borne (within : Prop) (fault : Fault) (again : Nat) (lately : Bool) (es : List Effect)
    (s : Monitor) : Prop where
  judged : JudgedTimes fault (again + 1) es
  remembered : within → s.judged = !lately

namespace Borne

variable {within around : Prop} {fault : Fault} {again : Nat} {lately : Bool} {es fs : List Effect}

theorem after (hb : Borne within fault again lately fs s) (nothing : judgements es = [])
    (inward : around → within) : Borne around fault again lately (es ++ fs) s where
  judged := Nat.zero_add (again + 1) ▸ (JudgedTimes.none nothing).append hb.judged
  remembered := hb.remembered ∘ inward

/-- What succeeds behind the failure is taken to have absorbed it. -/
theorem behind (hb : Borne within fault again lately es s) (told : Tells p s h r t)
    (quiet : t.quiet) :
    Borne within fault again (lately || t.succeeds) (es ++ t.effects) r.desk := by
  obtain ⟨nothing, judged⟩ := told.of_quiet quiet
  refine ⟨hb.judged.append (.none nothing), ?_⟩
  intro within
  rw [judged, hb.remembered within, Bool.not_or]

theorem leaveNative (hb : Borne within fault again lately es s) (inside : within) (g : Guard) :
    Borne around fault again lately es (s.leaveNative g (.failed fault)) :=
  ⟨hb.judged, fun _ => hb.remembered inside⟩

/-- An entry point judges the failure again if it was forgotten on the way to its end. -/
theorem leaveEntry (hb : Borne within fault again lately es s) (inside : within) (h : Host)
    (view : Nat) (index : Int32) (g : Guard) (further : around → (s.calls.drop g).calls ≠ []) :
    Borne around fault (again + lately.toNat) false
      (es ++ (s.leaveEntry h view index g (.failed fault)).2)
      (s.leaveEntry h view index g (.failed fault)).1 where
  judged := by
    have here := s.judgedTimes_leaveEntry h view index g fault
    rw [hb.remembered inside, Bool.not_not] at here
    exact Nat.add_right_comm .. ▸ hb.judged.append here
  remembered around := Monitor.leaveEntry_judged_of_open (further around) ..

/-- The failure of an entry point itself. -/
theorem raised (fault : Fault) (clear : s.judged = false) (nothing : judgements es = []) (h : Host)
    (view : Nat) (index : Int32) (g : Guard) (further : around → (s.calls.drop g).calls ≠ []) :
    Borne around fault 0 false (es ++ (s.leaveEntry h view index g (.failed fault)).2)
      (s.leaveEntry h view index g (.failed fault)).1 where
  judged := by
    have here := s.judgedTimes_leaveEntry h view index g fault
    rw [clear] at here
    exact (JudgedTimes.none nothing).append here
  remembered around := Monitor.leaveEntry_judged_of_open (further around) ..

end Borne

/-- By induction on the run. Within a call, a monitor remembers the failure exactly until a call
succeeds behind it. -/
theorem Tells.borne {fault : Fault} {again : Nat} {lately : Bool} (told : Tells p s h r t)
    (clear : s.judged = false) (relays : t.Relays fault again lately) :
    Borne (s.calls.calls ≠ []) fault again lately t.effects r.desk := by
  induction told generalizing again lately with
  | done | panic | raise => cases relays
  | note n _ ih => exact ih clear relays
  | change f _ ih => exact ih clear relays
  | inspect _ ih => exact ih clear relays
  | @tell next s h r t n _ ih =>
    cases relays with
    | did _ later =>
      have out := ih (by rw [Monitor.take_judged, clear]) later
      exact out.after (s.judgements_take h n) (s.calls_prefix_take h n).ne_nil
  | @releasePanicked body next s h d h' trace b view address caller _ ih =>
    cases relays with
    | did _ later =>
      rw [Story.append_ended] at later
      have out := ih (by rw [Monitor.checkRelease_judged, clear]) later
      rw [Story.effects, Story.append_ended]
      exact out.after (s.judgements_checkRelease h view address caller) (by simp)
  | @release body next s h outcome d h' trace b r t view address caller inner rest ihb ihn =>
    have asked := s.judgements_checkRelease h view address caller
    have start : (s.checkRelease h view address caller).1.judged = false := by
      rw [Monitor.checkRelease_judged, clear]
    have kept := inner.calls_prefix
    rw [Monitor.checkRelease_calls] at kept
    rw [Story.effects, Story.effects_append]
    cases relays with
    | did _ later =>
      rcases later.of_append with ⟨before, later⟩ | ⟨_, relayed, behind, rfl⟩
      · obtain ⟨nothing, (still : d.judged = _)⟩ := inner.of_quiet before
        rw [start, Bool.false_and] at still
        exact ((ihn still later).after nothing kept.ne_nil).after asked id
      · have out : Borne _ _ _ _ _ d := ihb start relayed
        exact (out.behind rest behind).after asked (by simp)
  | entryPanicked view index _ ih =>
    cases relays with
    | afterEntry _ _ _ _ later => cases later
  | @entry body next s h outcome d h' trace b r t view index inner rest ihb ihn =>
    have inside := s.enterEntry_calls_ne_nil h view index
    have restored : d.calls.drop (entryGuard s h view index) = s.calls :=
      drop_enterEntry inner.calls_prefix
    have further (hs : s.calls.calls ≠ []) :
        (d.calls.drop (entryGuard s h view index)).calls ≠ [] := by rwa [restored]
    cases relays with
    | afterEntry _ _ before other later =>
      obtain ⟨nothing, _⟩ := inner.of_quiet before
      cases outcome with
      | failed f => exact absurd rfl (other f)
      | returned value =>
        have out := ihn rfl later
        rw [Monitor.leaveEntry_calls, restored] at out
        exact out.after (by rw [judgements_append, nothing]; rfl) id
    | raised _ _ before behind since =>
      subst since
      obtain ⟨nothing, (still : d.judged = _)⟩ := inner.of_quiet before
      rw [Monitor.enterEntry_judged, clear, Bool.false_and] at still
      have left :=
        Borne.raised fault still nothing h' view index (entryGuard s h view index) further
      have out := left.behind rest behind
      exact out
    | remembered _ _ relayed behind since | forgotten _ _ relayed behind since =>
      subst since
      have relayed : Borne _ _ _ _ _ d := ihb clear relayed
      have left := relayed.leaveEntry inside h' view index (entryGuard s h view index) further
      have out := left.behind rest behind
      exact out
  | nativePanicked view index _ ih =>
    cases relays with
    | afterNative _ _ later => cases later
  | @native body next s h outcome d h' trace b r t view index inner rest ihb ihn =>
    have inside := s.enterNative_calls_ne_nil h view index
    have restored : d.calls.drop (nativeGuard s h view index) = s.calls :=
      drop_enterNative inner.calls_prefix
    cases relays with
    | afterNative _ before later =>
      obtain ⟨nothing, (still : d.judged = _)⟩ := inner.of_quiet before
      rw [Monitor.enterNative_judged, clear, Bool.false_and] at still
      have out := ihn (by cases outcome <;> simp [Monitor.leaveNative, still]) later
      rw [Monitor.leaveNative_calls, restored] at out
      exact out.after nothing id
    | native relayed behind since =>
      subst since
      have relayed : Borne _ _ _ _ _ d := ihb clear relayed
      have left : Borne (s.calls.calls ≠ []) _ _ _ _ _ :=
        relayed.leaveNative inside (nativeGuard s h view index)
      have out := left.behind rest behind
      exact out
  | @guarded body next s h outcome d h' trace b r t inner rest ihb ihn =>
    rw [Story.effects_append]
    rcases relays.of_append with ⟨before, later⟩ | ⟨_, relayed, behind, rfl⟩
    · obtain ⟨nothing, (still : d.judged = _)⟩ := inner.of_quiet before
      rw [clear, Bool.false_and] at still
      exact (ihn still later).after nothing inner.calls_prefix.ne_nil
    · have relayed : Borne _ _ _ _ _ d := ihb clear relayed
      have out := relayed.behind rest behind
      exact out

/-- **A failure is reported again behind a cleanup.** A failure that comes out of a run, with every
call around it handing it on, is judged once where it was raised and once more for each entry point
that it comes through after a call has succeeded behind it. Unless a debugger detaches, each time it
has its headline, and the command is started and the process ended if the settings say so. -/
theorem relayed_failure_reports {fault : Fault} {again : Nat} {lately : Bool} (p : Lone ν)
    (settings : Settings) (services : Services) (env : Environment) (h : Host)
    (relayed :
      (p.story (Monitor.start settings services env) h).Relays fault again lately) :
    let es := (p.run (Monitor.start settings services env) h).effects
    JudgedTimes fault (again + 1) es ∧ Accounted settings es ∧
      ((∀ index, fault.isDetach index settings.detachIndex = false) →
        es.countP (isHeadline settings.marker) = again + 1 ∧
        es.countP isCommand = (if settings.runOnError = "" then 0 else again + 1) ∧
        es.countP isEnding = if settings.dieOnError then again + 1 else 0) := by
  intro es
  have told := tells_run p (Monitor.start settings services env) h
  have judged : JudgedTimes fault (again + 1) es := by
    have out := (told.borne rfl relayed).judged
    rwa [told.effects] at out
  have accounted : Accounted settings es := by
    have all := told.accounted
    rwa [told.effects] at all
  refine ⟨judged, accounted, ?_⟩
  intro genuine
  have reports := judged.reports accounted genuine
  rw [accounted.headlines, accounted.commands, accounted.endings, reports]
  exact ⟨rfl, rfl, rfl⟩

/-- An entry point that fails under a native under an entry point. Nothing comes behind it. -/
def handedOn : Lone Unit :=
  .enter 0 0
    (.native 0 0
      (fun _ => .enter 0 1 (.done (.failed .notInitialised)) fun outcome =>
        .done (outcome.getD (.returned 0)))
      fun outcome => .done (outcome.getD (.returned 0)))
    fun outcome => .done (outcome.getD (.returned 0))

/-- An entry point that fails under another one, which then runs a callback that succeeds. -/
def cleanedUp : Lone Unit :=
  .enter 0 0
    (.enter 0 1 (.done (.failed .notInitialised)) fun outcome =>
      .enter 0 2 (.done (.returned 0)) fun _ => .done (outcome.getD (.returned 0)))
    fun outcome => .done (outcome.getD (.returned 0))

/-- What the end of an entry point does that judges its failure with the status 22. -/
def headlineOf (index : Int32) : List Effect :=
  [.judged 1 index .notInitialised .goOn,
    .line "[debug] Run time error 22: \"AMX not initialized (or doubly initialized)\""]

theorem relays_handedOn : (handedOn.story .bare .bare).Relays .notInitialised 0 false := by
  have story : handedOn.story .bare .bare =
      .entry
        (.native (.entry .ended (some (.failed .notInitialised)) (headlineOf 1) false .ended)
          (some (.failed .notInitialised)) .ended)
        (some (.failed .notInitialised)) [] true .ended := by
    decide +kernel
  rw [story]
  exact .remembered _ _ (.native (.raised _ _ rfl rfl rfl) rfl rfl) rfl rfl

theorem relays_cleanedUp : (cleanedUp.story .bare .bare).Relays .notInitialised 1 false := by
  have story : cleanedUp.story .bare .bare =
      .entry (.entry .ended (some (.failed .notInitialised)) (headlineOf 1) false
        (.entry .ended (some (.returned 0)) [] false .ended))
        (some (.failed .notInitialised)) (headlineOf 0) true .ended := by
    decide +kernel
  rw [story]
  exact .forgotten _ _ (.raised _ _ rfl rfl rfl) rfl rfl

theorem relayed_failure_reports_cleanedUp :
    ((handedOn.story .bare .bare).Relays .notInitialised 0 false ∧
      (handedOn.run Monitor.bare .bare).effects.countP (isHeadline "[debug] ") = 1) ∧
    (cleanedUp.story .bare .bare).Relays .notInitialised 1 false ∧
      (cleanedUp.run Monitor.bare .bare).effects.countP (isHeadline "[debug] ") = 2 := by
  have genuine (index : Int32) : Fault.isDetach .notInitialised index (some (-10)) = false := rfl
  obtain ⟨_, _, once⟩ :=
    relayed_failure_reports handedOn {} .system {} .bare relays_handedOn
  obtain ⟨_, _, twice⟩ :=
    relayed_failure_reports cleanedUp {} .system {} .bare relays_cleanedUp
  exact ⟨⟨relays_handedOn, (once genuine).1⟩, relays_cleanedUp, (twice genuine).1⟩

/-- The callback that cleans up succeeds, and the failure behind it has a second headline. -/
theorem cleanup_doubles_headline :
    (cleanedUp.story .bare .bare).Relays .notInitialised 1 false ∧
      (cleanedUp.run Monitor.bare .bare).effects = headlineOf 1 ++ headlineOf 0 ∧
      (cleanedUp.run Monitor.bare .bare).effects.countP (isHeadline "[debug] ") ≠ 1 :=
  ⟨relays_cleanedUp, by decide +kernel, by decide +kernel⟩

end Program

end Postmortem
