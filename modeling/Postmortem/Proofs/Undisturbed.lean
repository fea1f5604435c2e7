import Postmortem.Proofs.Watching

/-!
# Looking on disturbs nothing

A program with calls put into it that look on, and the program without them. Both run alike.

* `Watched`: a program with places for such calls. `Watched.program` is the program without them,
  `Watched.watched` the one with them.
* `Watched.tells_watched`: both runs come to the same, and only their traces differ.
* `Watched.reaches_watched`: where one run comes to, the other comes to as well.
* `Watched.watching_disturbs_nothing`: what the two runs have in common.
-/

namespace Postmortem

open Effect

/-- A program with calls put into it that look on: where it makes a request, these are made. -/
abbrev Watched (ν : Type) : Type := Program Watch Unit ν

namespace Story

/-- What the calls came to and what became of the faults, without all that was done besides. -/
def dealings : Story → Story
  | ended => ended
  | did _ rest => rest.dealings
  | heard verdict es rest => heard verdict es rest.dealings
  | entry body outcome es last rest => entry body.dealings outcome es last rest.dealings
  | native body outcome rest => native body.dealings outcome rest.dealings

@[simp] theorem dealings_append (a b : Story) :
    (a.append b).dealings = a.dealings.append b.dealings := by
  induction a <;> simp_all [append, dealings]

end Story

/-- Calls that look on are in no dealing. -/
theorem Watch.dealings_before {ν : Type} {s : Monitor} {h : Host} {w : Watch} (seen : w.Seen s h)
    (p : Lone (Noted ν)) : ((w.before p).story s h).dealings = (p.story s h).dealings := by
  induction w generalizing p with
  | nothing => rfl
  | notice n looks rest ih =>
    simp only [before, Program.story, Story.dealings, Monitor.take_of_looks looks, ih seen]
  | backtrace rest ih => simp only [before, Program.story, ih seen]
  | release view address caller inside outcome rest ihi ihr =>
    obtain ⟨known, seenInside, seenRest⟩ := seen
    rw [before, Program.story, Program.story_release, Monitor.checkRelease_of_hasSeen known]
    simp only [Program.story, Program.run, run_before seenInside]
    simp [Run.after, Story.dealings, Story.append, Program.story, ihi seenInside, ihr seenRest]

namespace Watched

open Program

variable {ν ν' : Type}

/-- The program that notes through `mark` and for its requests makes the `calls`. -/
def fill (mark : ν → ν') (calls : Watch → Lone ν' → Lone ν') : Program Watch Unit ν → Lone ν'
  | .done outcome => .done outcome
  | .panic => .panic
  | .note n next => .note (mark n) (fill mark calls next)
  | .change f next => .change f (fill mark calls next)
  | .inspect next => .inspect fun s h => fill mark calls (next s h)
  | .tell n next => .tell n (fill mark calls next)
  | .raise view index fault next => .raise view index fault fun v => fill mark calls (next v)
  | .release view address caller body next =>
    .release view address caller (fill mark calls body) fun o => fill mark calls (next o)
  | .enter view index body next =>
    .enter view index (fill mark calls body) fun o => fill mark calls (next o)
  | .native view index body next =>
    .native view index (fun handler => fill mark calls (body handler)) fun o =>
      fill mark calls (next o)
  | .guarded body next => .guarded (fill mark calls body) fun o => fill mark calls (next o)
  | .request w next => calls w (fill mark calls (next ()))

/-- The program without the calls that look on. -/
def program (q : Watched ν) : Lone ν := fill id (fun _ p => p) q

/-- The program with the calls that look on, and with marks around them. -/
def watched (q : Watched ν) : Lone (Noted ν) := fill .plain Watch.before q

/-- What a machine's handler does for a native, with places for calls that look on. -/
def handled (s : Monitor) (h : Host) (view : Nat) (body : String → Watched ν) : Watched ν :=
  (s.handler? (h.machine view).handle).elim (.done (.failed .noCallback)) body

theorem handled_fill (mark : ν → ν') (calls : Watch → Lone ν' → Lone ν') (s : Monitor) (h : Host)
    (view : Nat) (body : String → Watched ν) :
    Program.handled s h view (fun handler => fill mark calls (body handler)) =
      fill mark calls (handled s h view body) := by
  unfold Program.handled handled
  cases s.handler? (h.machine view).handle <;> rfl

/-- Induction on a program with places for calls that look on. A native is taken with what its
machine does for it, as in `Program.induction_alone`. -/
@[elab_as_elim]
theorem induction_handled {motive : Watched ν → Prop}
    (done : ∀ outcome, motive (.done outcome))
    (panic : motive .panic)
    (note : ∀ n next, motive next → motive (.note n next))
    (change : ∀ f next, motive next → motive (.change f next))
    (inspect : ∀ next, (∀ s h, motive (next s h)) → motive (.inspect next))
    (tell : ∀ n next, motive next → motive (.tell n next))
    (raise : ∀ view index fault next, (∀ v, motive (next v)) →
      motive (.raise view index fault next))
    (release : ∀ view address caller body next, motive body → (∀ o, motive (next o)) →
      motive (.release view address caller body next))
    (enter : ∀ view index body next, motive body → (∀ o, motive (next o)) →
      motive (.enter view index body next))
    (native : ∀ view index body next, (∀ s h, motive (handled s h view body)) →
      (∀ o, motive (next o)) → motive (.native view index body next))
    (guarded : ∀ body next, motive body → (∀ o, motive (next o)) → motive (.guarded body next))
    (request : ∀ w next, motive (next ()) → motive (.request w next))
    (q : Watched ν) : motive q := by
  induction q with
  | done outcome => exact done outcome
  | panic => exact panic
  | note n next ih => exact note n next ih
  | change f next ih => exact change f next ih
  | inspect next ih => exact inspect next ih
  | tell n next ih => exact tell n next ih
  | raise view index fault next ih => exact raise view index fault next ih
  | release view address caller body next ihb ihn =>
    exact release view address caller body next ihb ihn
  | enter view index body next ihb ihn => exact enter view index body next ihb ihn
  | native view index body next ihb ihn =>
    refine native view index body next (fun s h => ?_) ihn
    unfold handled
    cases s.handler? (h.machine view).handle with
    | none => exact done (.failed .noCallback)
    | some handler => exact ihb handler
  | guarded body next ihb ihn => exact guarded body next ihb ihn
  | request w next ih => exact request w next (ih ())

/-! ## Ways past a watch -/

section Ways

variable {p : Lone (Noted ν)} {s t : Monitor} {h g : Host} {past : List Monitor.Event}
  {w : Stand (Noted ν)} {rest : Watch}

theorem reaches_notice {n : Monitor.Notice} (looks : n.Looks)
    (onward : Reaches (rest.before p) s h past w t g) :
    Reaches ((Watch.notice n looks rest).before p) s h (⟨.took n, h⟩ :: past) w t g := by
  rw [Watch.before]
  refine .note _ (.tell n ?_)
  rw [Monitor.take_of_looks looks]
  exact .note _ onward

theorem reaches_backtrace (onward : Reaches (rest.before p) s h past w t g) :
    Reaches ((Watch.backtrace rest).before p) s h past w t g := by
  rw [Watch.before]
  exact .note _ (.inspect (.note _ (.note _ onward)))

variable {view : Nat} {address : Cell} {caller : UInt64} {inside : Watch} {outcome : Outcome}

theorem reaches_inside (seen : s.HasSeen h view) :
    Reaches ((Watch.release view address caller inside outcome rest).before p) s h
      [⟨.checkedRelease view address caller, h⟩] (.before (inside.before (.done outcome))) s h := by
  rw [Watch.before]
  refine .note _ (.inRelease view address caller ?_)
  rw [Monitor.checkRelease_of_hasSeen seen]
  exact .note _ (.here ..)

theorem reaches_release (seen : s.HasSeen h view) (seenInside : inside.Seen s h)
    (onward : Reaches (rest.before p) s h past w t g) :
    ∃ before, Reaches ((Watch.release view address caller inside outcome rest).before p) s h
      (before ++ past) w t g := by
  have ran : ((inside.before (.done outcome) : Lone (Noted ν)).run s h) =
      ⟨some outcome, s, h, inside.trace s h ++ []⟩ := Watch.run_before seenInside (.done outcome)
  obtain ⟨before, ended⟩ := reaches_over_iff.mpr ⟨_, ran⟩
  have released : Reaches (.note .releases (inside.before (.done outcome)) : Lone (Noted ν))
      (s.checkRelease h view address caller).1 h before (.over (some outcome)) s h := by
    rw [Monitor.checkRelease_of_hasSeen seen]
    exact .note _ ended
  rw [Watch.before]
  exact ⟨_, .note _ (.release view address caller released (.note _ onward))⟩

/-- Behind a watch a run goes on as if there had been none. -/
theorem reaches_behind {v : Watch} (seen : v.Seen s h) (onward : Reaches p s h past w t g) :
    ∃ before, Reaches (v.before p) s h (before ++ past) w t g := by
  induction v with
  | nothing => exact ⟨[], onward⟩
  | notice n looks rest ih =>
    obtain ⟨before, way⟩ := ih seen
    exact ⟨_ :: before, reaches_notice looks way⟩
  | backtrace rest ih =>
    obtain ⟨before, way⟩ := ih seen
    exact ⟨before, reaches_backtrace way⟩
  | release view address caller inside outcome rest _ ih =>
    obtain ⟨known, seenInside, seenRest⟩ := seen
    obtain ⟨before, way⟩ := ih seenRest
    obtain ⟨earlier, within⟩ := reaches_release known seenInside way
    exact ⟨earlier ++ before, by rwa [List.append_assoc]⟩

end Ways

/-- Where a run comes to a release that was put in, the monitor has seen the machine. -/
def ReleasesSeen (p : Lone (Noted ν)) (s : Monitor) (h : Host) : Prop :=
  ∀ past view address caller body next t g,
    Reaches p s h past (.before (.note .begins (.release view address caller body next))) t g →
      t.HasSeen g view

namespace ReleasesSeen

variable {p q : Lone (Noted ν)} {s t : Monitor} {h g : Host} {past : List Monitor.Event}

theorem onward (seen : ReleasesSeen p s h) (way : Reaches p s h past (.before q) t g) :
    ReleasesSeen q t g := by
  intro later view address caller body next u k further
  exact seen _ view address caller body next u k (way.trans further)

theorem watch {w : Watch} (seen : ReleasesSeen (w.before p) s h) : w.Seen s h := by
  induction w generalizing p with
  | nothing => trivial
  | notice n looks rest ih => exact ih (seen.onward (reaches_notice looks (.here ..)))
  | backtrace rest ih => exact ih (seen.onward (reaches_backtrace (.here ..)))
  | release view address caller inside outcome rest ihi ihr =>
    have known : s.HasSeen h view := seen _ view address caller _ _ s h (.here ..)
    have seenInside : inside.Seen s h := ihi (seen.onward (reaches_inside known))
    obtain ⟨_, way⟩ := reaches_release known seenInside (.here (rest.before p) s h)
    exact ⟨known, seenInside, ihr (seen.onward way)⟩

end ReleasesSeen

/-! ## Both runs -/

/-- A run with calls in it that look on, and the run without them, each with its story. -/
inductive Alike : Run Monitor (Noted ν) → Story → Run Monitor ν → Story → Prop
  | intro {outcome d h long short told told'} (trace : Noted.Extends long short)
      (dealings : told.dealings = told'.dealings) :
      Alike ⟨outcome, d, h, long⟩ told ⟨outcome, d, h, short⟩ told'

theorem Alike.after_watch {w : Watch} {s : Monitor} {h : Host} {r : Run Monitor (Noted ν)}
    {t t' : Story} {r' : Run Monitor ν} {told' : Story} (alike : Alike r t r' told')
    (same : t'.dealings = t.dealings) : Alike (r.after (w.trace s h)) t' r' told' := by
  obtain ⟨trace, dealings⟩ := alike
  exact .intro ((Noted.Extends.watch w s h).append trace) (same.trans dealings)

/-- By induction on the program: calls that look on come and go, and otherwise both runs do the
same. -/
theorem tells_watched {q : Watched ν} {s : Monitor} {h : Host} {r : Run Monitor ν} {t : Story}
    (told : Tells (program q) s h r t) (seen : ReleasesSeen (watched q) s h) :
    ∃ r' t', Tells (watched q) s h r' t' ∧ Alike r' t' r t := by
  induction q using induction_handled generalizing s h r t with
  | done outcome =>
    cases told
    exact ⟨_, _, .done outcome s h, .intro .nil rfl⟩
  | panic =>
    cases told
    exact ⟨_, _, .panic s h, .intro .nil rfl⟩
  | note n next ih =>
    cases told with | note _ rest =>
    obtain ⟨_, _, rest', ⟨trace, dealings⟩⟩ := ih rest (seen.onward (.note _ (.here ..)))
    exact ⟨_, _, .note _ rest', .intro ((Noted.Extends.plain n).append trace) dealings⟩
  | change f next ih =>
    cases told with | change _ rest =>
    obtain ⟨_, _, rest', alike⟩ := ih rest (seen.onward (.change f (.here ..)))
    exact ⟨_, _, .change f rest', alike⟩
  | inspect next ih =>
    cases told with | inspect rest =>
    obtain ⟨_, _, rest', alike⟩ := ih (some s) h rest (seen.onward (.inspect (.here ..)))
    exact ⟨_, _, .inspect rest', alike⟩
  | tell n next ih =>
    cases told with | tell _ rest =>
    obtain ⟨_, _, rest', ⟨trace, dealings⟩⟩ := ih rest (seen.onward (.tell n (.here ..)))
    exact ⟨_, _, .tell n rest', .intro ((Noted.Extends.effects _).append trace) dealings⟩
  | raise view index fault next ih =>
    cases told with | raise _ _ _ rest =>
    obtain ⟨_, _, rest', ⟨trace, dealings⟩⟩ :=
      ih _ rest (seen.onward (.raise view index fault (.here ..)))
    exact ⟨_, _, .raise view index fault rest',
      .intro ((Noted.Extends.effects _).append trace) (congrArg (Story.heard _ _) dealings)⟩
  | release view address caller body next ihb ihn =>
    have seenBody := seen.onward (.inRelease view address caller (.here ..))
    cases told with
    | releasePanicked _ _ _ inner =>
      obtain ⟨_, _, inner', ⟨trace, dealings⟩⟩ := ihb inner seenBody
      exact ⟨_, _, .releasePanicked view address caller inner',
        .intro ((Noted.Extends.effects _).append trace) (by simp [Story.dealings, dealings])⟩
    | release _ _ _ inner rest =>
      obtain ⟨_, _, inner', ⟨trace, dealings⟩⟩ := ihb inner seenBody
      obtain ⟨_, ended⟩ := inner'.reaches
      obtain ⟨_, _, rest', ⟨later, dealings'⟩⟩ :=
        ihn _ rest (seen.onward (.release view address caller ended (.here ..)))
      exact ⟨_, _, .release view address caller inner' rest',
        .intro ((Noted.Extends.effects _).append (trace.append later))
          (by simp [Story.dealings, dealings, dealings'])⟩
  | enter view index body next ihb ihn =>
    have seenBody := seen.onward (.inEntry view index (.here ..))
    cases told with
    | entryPanicked _ _ inner =>
      obtain ⟨_, _, inner', ⟨trace, dealings⟩⟩ := ihb inner seenBody
      exact ⟨_, _, .entryPanicked view index inner',
        .intro trace (by simp [Story.dealings, dealings])⟩
    | entry _ _ inner rest =>
      obtain ⟨_, _, inner', ⟨trace, dealings⟩⟩ := ihb inner seenBody
      obtain ⟨_, ended⟩ := inner'.reaches
      obtain ⟨_, _, rest', ⟨later, dealings'⟩⟩ :=
        ihn _ rest (seen.onward (.entry view index ended (.here ..)))
      exact ⟨_, _, .entry view index inner' rest',
        .intro (trace.append ((Noted.Extends.effects _).append later))
          (by simp [Story.dealings, dealings, dealings'])⟩
  | native view index body next ihb ihn =>
    have seenBody := seen.onward (.inNative view index (.here ..))
    rw [handled_fill] at seenBody
    cases told with
    | nativePanicked _ _ inner =>
      rw [handled_fill] at inner
      obtain ⟨_, _, inner', ⟨trace, dealings⟩⟩ := ihb _ h inner seenBody
      rw [watched, ← handled_fill] at inner'
      exact ⟨_, _, .nativePanicked view index inner',
        .intro trace (by simp [Story.dealings, dealings])⟩
    | native _ _ inner rest =>
      rw [handled_fill] at inner
      obtain ⟨_, _, inner', ⟨trace, dealings⟩⟩ := ihb _ h inner seenBody
      rw [watched, ← handled_fill] at inner'
      obtain ⟨_, ended⟩ := inner'.reaches
      obtain ⟨_, _, rest', ⟨later, dealings'⟩⟩ :=
        ihn _ rest (seen.onward (.native view index ended (.here ..)))
      exact ⟨_, _, .native view index inner' rest',
        .intro (trace.append later) (by simp [Story.dealings, dealings, dealings'])⟩
  | guarded body next ihb ihn =>
    cases told with | guarded inner rest =>
    obtain ⟨_, _, inner', ⟨trace, dealings⟩⟩ := ihb inner (seen.onward (.inGuarded (.here ..)))
    obtain ⟨_, ended⟩ := inner'.reaches
    obtain ⟨_, _, rest', ⟨later, dealings'⟩⟩ :=
      ihn _ rest (seen.onward (.guarded ended (.here ..)))
    exact ⟨_, _, .guarded inner' rest',
      .intro (trace.append later) (by simp [dealings, dealings'])⟩
  | request w next ih =>
    have known := seen.watch
    obtain ⟨_, behind⟩ := reaches_behind known (.here (watched (next ())) s h)
    obtain ⟨_, _, rest, alike⟩ := ih told (seen.onward behind)
    obtain ⟨rfl, rfl⟩ := rest.determined
    refine ⟨_, _, tells_run (w.before (watched (next ()))) s h, ?_⟩
    rw [Watch.run_before known]
    exact alike.after_watch (Watch.dealings_before known (watched (next ())))

/-- Where both runs come to: before the same of the program, or to the same end. -/
inductive Corresponds : Stand ν → Stand (Noted ν) → Prop
  | before (q : Watched ν) : Corresponds (.before (program q)) (.before (watched q))
  | over (outcome : Option Outcome) : Corresponds (.over outcome) (.over outcome)

theorem reaches_watched {q : Watched ν} {s t : Monitor} {h g : Host} {past : List Monitor.Event}
    {w : Stand ν} (way : Reaches (program q) s h past w t g) (seen : ReleasesSeen (watched q) s h) :
    ∃ past' w', Reaches (watched q) s h past' w' t g ∧ past.Sublist past' ∧ Corresponds w w' := by
  induction q using induction_handled generalizing s h past w t g with
  | done outcome =>
    cases way with
    | here => exact ⟨_, _, .here .., .refl _, .before (.done outcome)⟩
    | done => exact ⟨_, _, .done outcome s h, .refl _, .over _⟩
  | panic =>
    cases way with
    | here => exact ⟨_, _, .here .., .refl _, .before .panic⟩
    | panic => exact ⟨_, _, .panic s h, .refl _, .over _⟩
  | note n next ih =>
    cases way with
    | here => exact ⟨_, _, .here .., .refl _, .before (.note n next)⟩
    | note _ rest =>
      obtain ⟨_, _, rest', kept, same⟩ := ih rest (seen.onward (.note _ (.here ..)))
      exact ⟨_, _, .note _ rest', kept, same⟩
  | change f next ih =>
    cases way with
    | here => exact ⟨_, _, .here .., .refl _, .before (.change f next)⟩
    | change _ rest =>
      obtain ⟨_, _, rest', kept, same⟩ := ih rest (seen.onward (.change f (.here ..)))
      exact ⟨_, _, .change f rest', kept, same⟩
  | inspect next ih =>
    cases way with
    | here => exact ⟨_, _, .here .., .refl _, .before (.inspect next)⟩
    | inspect rest =>
      obtain ⟨_, _, rest', kept, same⟩ := ih (some s) h rest (seen.onward (.inspect (.here ..)))
      exact ⟨_, _, .inspect rest', kept, same⟩
  | tell n next ih =>
    cases way with
    | here => exact ⟨_, _, .here .., .refl _, .before (.tell n next)⟩
    | tell _ rest =>
      obtain ⟨_, _, rest', kept, same⟩ := ih rest (seen.onward (.tell n (.here ..)))
      exact ⟨_, _, .tell n rest', kept.cons_cons _, same⟩
  | raise view index fault next ih =>
    cases way with
    | here => exact ⟨_, _, .here .., .refl _, .before (.raise view index fault next)⟩
    | raise _ _ _ rest =>
      obtain ⟨_, _, rest', kept, same⟩ :=
        ih _ rest (seen.onward (.raise view index fault (.here ..)))
      exact ⟨_, _, .raise view index fault rest', kept.cons_cons _, same⟩
  | release view address caller body next ihb ihn =>
    have seenBody := seen.onward (.inRelease view address caller (.here ..))
    cases way with
    | here => exact ⟨_, _, .here .., .refl _, .before (.release view address caller body next)⟩
    | inRelease _ _ _ inner =>
      obtain ⟨_, _, inner', kept, ⟨q⟩⟩ := ihb inner seenBody
      exact ⟨_, _, .inRelease view address caller inner', kept.cons_cons _, .before q⟩
    | releasePanicked _ _ _ inner =>
      obtain ⟨_, _, inner', kept, ⟨⟩⟩ := ihb inner seenBody
      exact ⟨_, _, .releasePanicked view address caller inner', kept.cons_cons _, .over _⟩
    | release _ _ _ inner rest =>
      obtain ⟨_, _, inner', kept, ⟨⟩⟩ := ihb inner seenBody
      obtain ⟨_, _, rest', kept', same⟩ :=
        ihn _ rest (seen.onward (.release view address caller inner' (.here ..)))
      exact ⟨_, _, .release view address caller inner' rest', (kept.cons_cons _).append kept', same⟩
  | enter view index body next ihb ihn =>
    have seenBody := seen.onward (.inEntry view index (.here ..))
    cases way with
    | here => exact ⟨_, _, .here .., .refl _, .before (.enter view index body next)⟩
    | inEntry _ _ inner =>
      obtain ⟨_, _, inner', kept, ⟨q⟩⟩ := ihb inner seenBody
      exact ⟨_, _, .inEntry view index inner', kept.cons_cons _, .before q⟩
    | entryPanicked _ _ inner =>
      obtain ⟨_, _, inner', kept, ⟨⟩⟩ := ihb inner seenBody
      exact ⟨_, _, .entryPanicked view index inner', (kept.cons_cons _).append (.refl _), .over _⟩
    | entry _ _ inner rest =>
      obtain ⟨_, _, inner', kept, ⟨⟩⟩ := ihb inner seenBody
      obtain ⟨_, _, rest', kept', same⟩ :=
        ihn _ rest (seen.onward (.entry view index inner' (.here ..)))
      exact ⟨_, _, .entry view index inner' rest',
        (kept.cons_cons _).append (kept'.cons_cons _), same⟩
  | native view index body next ihb ihn =>
    have seenBody := seen.onward (.inNative view index (.here ..))
    rw [handled_fill] at seenBody
    cases way with
    | here => exact ⟨_, _, .here .., .refl _, .before (.native view index body next)⟩
    | inNative _ _ inner =>
      rw [handled_fill] at inner
      obtain ⟨_, _, inner', kept, ⟨q⟩⟩ := ihb _ h inner seenBody
      rw [watched, ← handled_fill] at inner'
      exact ⟨_, _, .inNative view index inner', kept.cons_cons _, .before q⟩
    | nativePanicked _ _ inner =>
      rw [handled_fill] at inner
      obtain ⟨_, _, inner', kept, ⟨⟩⟩ := ihb _ h inner seenBody
      rw [watched, ← handled_fill] at inner'
      exact ⟨_, _, .nativePanicked view index inner', (kept.cons_cons _).append (.refl _), .over _⟩
    | native _ _ inner rest =>
      rw [handled_fill] at inner
      obtain ⟨_, _, inner', kept, ⟨⟩⟩ := ihb _ h inner seenBody
      rw [watched, ← handled_fill] at inner'
      obtain ⟨_, _, rest', kept', same⟩ :=
        ihn _ rest (seen.onward (.native view index inner' (.here ..)))
      exact ⟨_, _, .native view index inner' rest',
        (kept.cons_cons _).append (kept'.cons_cons _), same⟩
  | guarded body next ihb ihn =>
    have seenBody := seen.onward (.inGuarded (.here ..))
    cases way with
    | here => exact ⟨_, _, .here .., .refl _, .before (.guarded body next)⟩
    | inGuarded inner =>
      obtain ⟨_, _, inner', kept, ⟨q⟩⟩ := ihb inner seenBody
      exact ⟨_, _, .inGuarded inner', kept, .before q⟩
    | guarded inner rest =>
      obtain ⟨_, _, inner', kept, ⟨⟩⟩ := ihb inner seenBody
      obtain ⟨_, _, rest', kept', same⟩ := ihn _ rest (seen.onward (.guarded inner' (.here ..)))
      exact ⟨_, _, .guarded inner' rest', kept.append kept', same⟩
  | request w next ih =>
    have known := seen.watch
    obtain ⟨_, behind⟩ := reaches_behind known (.here (watched (next ())) s h)
    obtain ⟨past', w', rest, kept, same⟩ := ih way (seen.onward behind)
    obtain ⟨before, way'⟩ := reaches_behind known rest
    exact ⟨_, w', way', kept.trans (List.sublist_append_right before past'), same⟩

/-- The run of a program with calls put into it that look on is the run without them, as far as the
program is concerned. -/
structure Undisturbed (q : Watched ν) (s : Monitor) (h : Host) : Prop where
  outcome : ((watched q).run s h).outcome = ((program q).run s h).outcome
  desk : ((watched q).run s h).desk = ((program q).run s h).desk
  host : ((watched q).run s h).host = ((program q).run s h).host
  /-- Nothing is missing in the trace, and only the calls that look on have added to it. -/
  trace : Noted.outside 0 ((watched q).run s h).trace = ((program q).run s h).trace
  acts : ((watched q).run s h).effects.filter isAct = ((program q).run s h).effects.filter isAct
  /-- Every call has the same outcome, and every telling of a fault the same answer. -/
  dealings : ((watched q).story s h).dealings = ((program q).story s h).dealings
  /-- Wherever the program comes to, it comes to with the same monitor and the same host. On the way
  there the same is done, in the same order, whatever the calls that look on do besides. -/
  places : ∀ past w t g, Reaches (program q) s h past w t g →
    ∃ past' w', Reaches (watched q) s h past' w' t g ∧ past.Sublist past' ∧ Corresponds w w'

/-- A release that is put in is complained of just outside the heap. In either case it is done once,
and what follows it runs as if it had not been there. -/
structure ReleasedOnce (view : Nat) (address : Cell) (caller : UInt64) (inside : Watch)
    (outcome : Outcome) (rest : Watch) (p : Lone (Noted ν)) (s : Monitor) (h : Host) : Prop where
  lines_iff : (∃ text, .line text ∈ (s.checkRelease h view address caller).2) ↔
    address < (h.machine view).registers.hlw ∨ (h.machine view).registers.stk ≤ address
  run : ((Watch.release view address caller inside outcome rest).before p).run s h =
    ((rest.before p).run s h).after
      (.inr .begins :: (s.checkRelease h view address caller).2.map .inl ++
        .inr .releases :: inside.trace s h ++ [.inr .ends])

theorem undisturbed_of_releasesSeen {q : Watched ν} {s : Monitor} {h : Host}
    (seen : ReleasesSeen (watched q) s h) : Undisturbed q s h := by
  obtain ⟨r', t', told, alike⟩ := tells_watched (tells_run (program q) s h) seen
  obtain ⟨ran', rfl⟩ := told.determined
  generalize ran : (program q).run s h = r at alike
  generalize story : (program q).story s h = t at alike
  obtain ⟨trace, dealings⟩ := alike
  refine ⟨?_, ?_, ?_, ?_, ?_, ?_, fun past w t g way => reaches_watched way seen⟩
  · rw [← ran', ran]
  · rw [← ran', ran]
  · rw [← ran', ran]
  · rw [← ran', ran]
    simpa [Noted.outside] using trace.outside []
  · rw [← ran', ran]
    exact trace.acts
  · rw [story]
    exact dealings

theorem releasedOnce_of_reaches {p p' : Lone (Noted ν)} {s t : Monitor} {h g : Host}
    (seen : ReleasesSeen p s h) {past : List Monitor.Event} {view : Nat} {address : Cell}
    {caller : UInt64} {inside rest : Watch} {outcome : Outcome}
    (way : Reaches p s h past
      (.before ((Watch.release view address caller inside outcome rest).before p')) t g) :
    ReleasedOnce view address caller inside outcome rest p' t g where
  lines_iff := t.lines_checkRelease_iff g view address caller
  run := by
    obtain ⟨known, seenInside, seenRest⟩ := (seen.onward way).watch
    have whole := Watch.run_before (w := .release view address caller inside outcome rest)
      ⟨known, seenInside, seenRest⟩ p'
    rw [whole, Watch.run_before seenRest]
    simp [Run.after, Watch.trace]

/-- **Looking on disturbs nothing.** Calls that look on may be put in anywhere and at any depth,
also into the releases among them, if the machines whose memory is released are known by then. The
run is the one without them, but for what they write themselves. -/
theorem watching_disturbs_nothing {q : Watched ν} {s : Monitor} {h : Host}
    (seen : ReleasesSeen (watched q) s h) :
    Undisturbed q s h ∧
      ∀ past view address caller inside outcome rest p t g,
        Reaches (watched q) s h past
          (.before ((Watch.release view address caller inside outcome rest).before p)) t g →
        ReleasedOnce view address caller inside outcome rest p t g := by
  refine ⟨undisturbed_of_releasesSeen seen, ?_⟩
  intro past view address caller inside outcome rest p t g way
  exact releasedOnce_of_reaches seen way

/-- A notice of a crash. -/
def crashNotice : Watch := .notice (.crashed none) trivial .nothing

/-- An entry point that fails. A release outside the heap and a notice of a crash are put in before
its end, and a backtrace after it. -/
def watchedFailure : Watched Unit :=
  .enter 0 0
    (.request (.release 0 5 0x40 .nothing (.returned 1) crashNotice) fun _ =>
      .done (.failed .noCallback))
    fun outcome => .request (.backtrace .nothing) fun _ => .done (outcome.getD (.returned 0))

theorem watching_disturbs_nothing_watchedFailure :
    ReleasesSeen (watched watchedFailure) .bare .bare ∧ Undisturbed watchedFailure .bare .bare ∧
      ReleasedOnce 0 5 0x40 .nothing (.returned 1) crashNotice
        (.done (.failed .noCallback) : Lone (Noted Unit)) (Monitor.bare.enterEntry .bare 0 0)
        .bare := by
  have seen : ReleasesSeen (watched watchedFailure) .bare .bare := by
    intro past view address caller body next t g way
    simp only [watched, watchedFailure, crashNotice, fill, Watch.before] at way
    -- The only release that was put in is made at the start of the entry point.
    cases way with
    | inEntry _ _ inner =>
      cases inner with
      | here => rfl
      | note _ inner => cases inner <;> repeat cases ‹Reaches _ _ _ _ (Stand.before _) _ _›
    | entry => repeat cases ‹Reaches _ _ _ _ (Stand.before _) _ _›
  obtain ⟨undisturbed, released⟩ := watching_disturbs_nothing seen
  exact ⟨seen, undisturbed, released _ _ _ _ _ _ _ _ _ _ (.inEntry 0 0 (.here ..))⟩

end Watched

end Postmortem
