import Mathlib.Data.List.Basic
import Postmortem.CallStack.History
import Postmortem.Proofs.Nesting

/-!
# Guards of a call stack

Guards may be given up in any order, and some are never dropped. A guard does not look for its own
call. It cuts the stack down to what was there when it was handed out, whatever stands on it now.

* `History.upTo`: a history at any time, with `Opened`, `Dropped` and `Leaked` for what happened.
* `History.Standing`: the calls on a stack, each where it was opened and none with a dropped guard.
* `History.Upholds`: what a guard has below it stays there as long as scopes nest.
* `History.guards_restore`: what a stack holds after any steps at all.
-/

namespace Postmortem

namespace History

/-- The history when `t` of the steps have been made. -/
def upTo (steps : List Step) (t : Nat) : History := (steps.take t).foldl step {}

/-- By the time `t`, call number `n` was opened at this place on the stack. Calls are numbered as
their guards are. -/
def Opened (steps : List Step) (t n : Nat) (c : Call) (place : Nat) : Prop :=
  ∃ u < t, steps[u]? = some (.push c) ∧ (upTo steps u).guards.length = n ∧
    (upTo steps u).stack.depth = place

/-- By the time `t`, a guard that was held was given up by this step. -/
def GivenUp (steps : List Step) (t n : Nat) (s : Step) : Prop :=
  ∃ u < t, steps[u]? = some s ∧ ((upTo steps u).held? n).isSome

def Dropped (steps : List Step) (t n : Nat) : Prop := GivenUp steps t n (.drop n)

def Leaked (steps : List Step) (t n : Nat) : Prop := GivenUp steps t n (.forget n)

/-- Scopes nest: no guard is dropped while a later one is held. -/
def Nested (steps : List Step) : Prop :=
  ∀ t n, steps[t]? = some (.drop n) → ((upTo steps t).held? n).isSome →
    ∀ later, n < later → (upTo steps t).held? later = none

/-- The numbers of the calls on a stack, oldest first. -/
structure Standing (steps : List Step) (t : Nat) (numbers : List Nat) : Prop where
  ascending : numbers.Pairwise (· < ·)
  all : numbers.length = (upTo steps t).stack.calls.length
  /-- Every call is where it was opened. -/
  opened : ∀ place n, numbers[place]? = some n →
    ∃ c, (upTo steps t).stack.calls[place]? = some c ∧ Opened steps t n c place
  kept : ∀ n ∈ numbers, ¬ Dropped steps t n

/-! ## One step -/

section

variable {h : History} {n : Nat}

theorem held?_push (h : History) (c : Call) (n : Nat) :
    (h.push c).held? n = if n = h.guards.length then some (h.stack.guard c) else h.held? n := by
  unfold held? push
  rcases Nat.lt_trichotomy n h.guards.length with earlier | rfl | later
  · rw [List.getElem?_append_left earlier, if_neg (Nat.ne_of_lt earlier)]
  · simp
  · have beyond : (h.guards ++ [some (h.stack.guard c)]).length ≤ n := by
      rw [List.length_append]
      exact later
    rw [if_neg (Nat.ne_of_gt later), List.getElem?_eq_none beyond,
      List.getElem?_eq_none (Nat.le_of_lt later)]

theorem held?_forget (h : History) (k n : Nat) :
    (h.forget k).held? n = if k = n then none else h.held? n := by
  unfold held? forget
  rw [List.getElem?_set]
  split
  · split <;> rfl
  · rfl

theorem held?_drop (h : History) (k n : Nat) :
    (h.drop k).held? n = if k = n then none else h.held? n := by
  cases held : h.held? k with
  | some g =>
    have dropped : h.drop k = { h.forget k with stack := h.stack.drop g } := by
      simp only [drop, held]
    rw [dropped]
    exact held?_forget h k n
  | none =>
    have unchanged : h.drop k = h := by simp only [drop, held]
    rw [unchanged]
    by_cases same : k = n
    · rw [if_pos same, ← same, held]
    · rw [if_neg same]

theorem length_guards_forget (h : History) (k : Nat) :
    (h.forget k).guards.length = h.guards.length := List.length_set

theorem length_guards_drop (h : History) (k : Nat) :
    (h.drop k).guards.length = h.guards.length := by
  unfold drop
  split
  · exact length_guards_forget h k
  · rfl

theorem length_guards_step (h : History) (s : Step) :
    h.guards.length ≤ (h.step s).guards.length := by
  cases s with
  | push c => simp [step, push]
  | drop k => exact Nat.le_of_eq (length_guards_drop h k).symm
  | forget k => exact Nat.le_of_eq (length_guards_forget h k).symm

theorem lt_of_held (held : (h.held? n).isSome) : n < h.guards.length := by
  by_contra beyond
  simp [held?, List.getElem?_eq_none (Nat.le_of_not_lt beyond)] at held

/-- A guard that is held was held before, or has just been handed out. -/
theorem held_step_cases {s : Step} {g : Guard} (held : (h.step s).held? n = some g) :
    h.held? n = some g ∨ ∃ c, s = .push c ∧ n = h.guards.length ∧ g = h.stack.guard c := by
  cases s with
  | push c =>
    rw [step, held?_push] at held
    by_cases new : n = h.guards.length
    · rw [if_pos new] at held
      exact .inr ⟨c, rfl, new, (Option.some.inj held).symm⟩
    · rw [if_neg new] at held
      exact .inl held
  | drop k =>
    rw [step, held?_drop] at held
    exact .inl (Option.ite_none_left_eq_some.mp held).2
  | forget k =>
    rw [step, held?_forget] at held
    exact .inl (Option.ite_none_left_eq_some.mp held).2

theorem held_until_givenUp (held : (h.held? n).isSome) (s : Step) :
    ((h.step s).held? n).isSome ∨ s = .drop n ∨ s = .forget n := by
  cases s with
  | push c =>
    have old : n ≠ h.guards.length := Nat.ne_of_lt (lt_of_held held)
    rw [step, held?_push, if_neg old]
    exact .inl held
  | drop k =>
    by_cases own : k = n
    · exact .inr (.inl (own ▸ rfl))
    · rw [step, held?_drop, if_neg own]
      exact .inl held
  | forget k =>
    by_cases own : k = n
    · exact .inr (.inr (own ▸ rfl))
    · rw [step, held?_forget, if_neg own]
      exact .inl held

/-- A guard is held when it is handed out. -/
theorem known_or_held {s : Step} (known : n < (h.step s).guards.length) :
    n < h.guards.length ∨ ((h.step s).held? n).isSome := by
  cases s with
  | push c =>
    by_cases new : n = h.guards.length
    · rw [step, held?_push, if_pos new]
      exact .inr rfl
    · simp only [step, push, List.length_append, List.length_singleton] at known
      exact .inl (by omega)
  | drop k =>
    rw [step, length_guards_drop] at known
    exact .inl known
  | forget k =>
    rw [step, length_guards_forget] at known
    exact .inl known

end

/-! ## Any number of steps -/

variable {steps : List Step} {t u n : Nat}

theorem upTo_succ {s : Step} (made : steps[t]? = some s) :
    upTo steps (t + 1) = (upTo steps t).step s := by
  simp [upTo, List.take_add_one, made]

theorem upTo_succ_of_none (done : steps[t]? = none) : upTo steps (t + 1) = upTo steps t := by
  simp [upTo, List.take_add_one, done]

theorem length_guards_mono (later : t ≤ u) :
    (upTo steps t).guards.length ≤ (upTo steps u).guards.length := by
  induction later with
  | refl => exact Nat.le_refl _
  | @step u _ ih =>
    cases made : steps[u]? with
    | none =>
      rw [upTo_succ_of_none made]
      exact ih
    | some s =>
      rw [upTo_succ made]
      exact Nat.le_trans ih (length_guards_step _ s)

theorem Opened.mono {c : Call} {place : Nat} (opened : Opened steps t n c place) (later : t ≤ u) :
    Opened steps u n c place := by
  obtain ⟨v, before, made⟩ := opened
  exact ⟨v, Nat.lt_of_lt_of_le before later, made⟩

/-- The number of an open call is taken. -/
theorem Opened.lt {c : Call} {place : Nat} (opened : Opened steps t n c place) :
    n < (upTo steps t).guards.length := by
  obtain ⟨u, before, made, rfl, _⟩ := opened
  have taken : (upTo steps u).guards.length < (upTo steps (u + 1)).guards.length := by
    simp [upTo_succ made, step, push]
  exact Nat.lt_of_lt_of_le taken (length_guards_mono before)

/-- A number is given to one call only. -/
theorem Opened.unique {c d : Call} {place place' : Nat} (opened : Opened steps t n c place)
    (opened' : Opened steps u n d place') : c = d ∧ place = place' := by
  obtain ⟨v, _, made, number, stood⟩ := opened
  obtain ⟨w, _, made', number', stood'⟩ := opened'
  rcases Nat.lt_trichotomy v w with earlier | rfl | later
  · have taken := Opened.lt ⟨v, earlier, made, number, stood⟩
    omega
  · rw [made] at made'
    cases made'
    exact ⟨rfl, stood.symm.trans stood'⟩
  · have taken := Opened.lt ⟨w, later, made', number', stood'⟩
    omega

theorem givenUp_succ_iff {s : Step} :
    GivenUp steps (t + 1) n s ↔
      GivenUp steps t n s ∨ steps[t]? = some s ∧ ((upTo steps t).held? n).isSome := by
  unfold GivenUp
  constructor
  · rintro ⟨u, before, given⟩
    rcases Nat.lt_succ_iff_lt_or_eq.mp before with earlier | rfl
    · exact .inl ⟨u, earlier, given⟩
    · exact .inr given
  · rintro (⟨u, before, given⟩ | given)
    · exact ⟨u, Nat.lt_succ_of_lt before, given⟩
    · exact ⟨t, Nat.lt_succ_self t, given⟩

/-- A guard knows its call, and the place of that call. -/
theorem opened_of_held {g : Guard} (held : (upTo steps t).held? n = some g) :
    ∃ place, g.depth = place + 1 ∧ Opened steps t n g.call place := by
  induction t with
  | zero => simp [upTo, held?] at held
  | succ t ih =>
    have onward (before : (upTo steps t).held? n = some g) :
        ∃ place, g.depth = place + 1 ∧ Opened steps (t + 1) n g.call place := by
      obtain ⟨place, depth, opened⟩ := ih before
      exact ⟨place, depth, opened.mono (Nat.le_succ t)⟩
    cases made : steps[t]? with
    | none =>
      rw [upTo_succ_of_none made] at held
      exact onward held
    | some s =>
      rw [upTo_succ made] at held
      rcases held_step_cases held with before | ⟨c, rfl, rfl, rfl⟩
      · exact onward before
      · exact ⟨_, rfl, t, Nat.lt_succ_self t, made, rfl, rfl⟩

theorem GivenUp.succ {s : Step} (given : GivenUp steps t n s) : GivenUp steps (t + 1) n s :=
  givenUp_succ_iff.mpr (.inl given)

/-- A guard that was handed out is held, or was dropped, or was leaked. -/
theorem held_or_givenUp (known : n < (upTo steps t).guards.length) :
    ((upTo steps t).held? n).isSome ∨ Dropped steps t n ∨ Leaked steps t n := by
  induction t with
  | zero => simp [upTo] at known
  | succ t ih =>
    cases made : steps[t]? with
    | none =>
      rw [upTo_succ_of_none made] at known ⊢
      exact (ih known).imp id (Or.imp GivenUp.succ GivenUp.succ)
    | some s =>
      rw [upTo_succ made] at known ⊢
      rcases known_or_held known with old | new
      · rcases ih old with held | dropped | leaked
        · rcases held_until_givenUp held s with still | rfl | rfl
          · exact .inl still
          · exact .inr (.inl (givenUp_succ_iff.mpr (.inr ⟨made, held⟩)))
          · exact .inr (.inr (givenUp_succ_iff.mpr (.inr ⟨made, held⟩)))
        · exact .inr (.inl dropped.succ)
        · exact .inr (.inr leaked.succ)
      · exact .inl new

theorem GivenUp.lt {s : Step} (given : GivenUp steps t n s) : n < (upTo steps t).guards.length := by
  obtain ⟨u, before, _, held⟩ := given
  exact Nat.lt_of_lt_of_le (lt_of_held held) (length_guards_mono (Nat.le_of_lt before))

/-! ## What stands on a stack -/

namespace Standing

variable {numbers : List Nat}

theorem opened_of_mem (standing : Standing steps t numbers) (hn : n ∈ numbers) :
    ∃ place c, numbers[place]? = some n ∧ Opened steps t n c place := by
  obtain ⟨place, found⟩ := List.getElem?_of_mem hn
  obtain ⟨c, _, opened⟩ := standing.opened place n found
  exact ⟨place, c, found, opened⟩

/-- Nothing changes while no call is opened and no guard dropped. -/
theorem unchanged (standing : Standing steps t numbers)
    (same : (upTo steps (t + 1)).stack = (upTo steps t).stack)
    (idle : ∀ n, steps[t]? = some (.drop n) → (upTo steps t).held? n = none) :
    Standing steps (t + 1) numbers := by
  refine ⟨standing.ascending, ?_, ?_, ?_⟩
  · rw [same]
    exact standing.all
  · intro place n found
    obtain ⟨c, there, opened⟩ := standing.opened place n found
    rw [same]
    exact ⟨c, there, opened.mono (Nat.le_succ t)⟩
  · intro n hn dropped
    rcases givenUp_succ_iff.mp dropped with earlier | ⟨drops, held⟩
    · exact standing.kept n hn earlier
    · rw [idle n drops] at held
      cases held

theorem push {c : Call} (standing : Standing steps t numbers)
    (made : steps[t]? = some (.push c)) :
    Standing steps (t + 1) (numbers ++ [(upTo steps t).guards.length]) := by
  have next : (upTo steps (t + 1)).stack.calls = (upTo steps t).stack.calls ++ [c] := by
    rw [upTo_succ made]
    rfl
  refine ⟨?_, ?_, ?_, ?_⟩
  · rw [List.pairwise_append]
    refine ⟨standing.ascending, List.pairwise_singleton .., ?_⟩
    intro n hn new hnew
    obtain ⟨_, _, _, opened⟩ := standing.opened_of_mem hn
    rw [List.mem_singleton.mp hnew]
    exact opened.lt
  · simp only [next, List.length_append, standing.all, List.length_singleton]
  · intro place n found
    rw [next]
    by_cases old : place < numbers.length
    · rw [List.getElem?_append_left old] at found
      obtain ⟨d, there, opened⟩ := standing.opened place n found
      rw [List.getElem?_append_left (standing.all ▸ old)]
      exact ⟨d, there, opened.mono (Nat.le_succ t)⟩
    · have bound := (List.getElem?_eq_some_iff.mp found).1
      have top : place = numbers.length := by
        simp only [List.length_append, List.length_singleton] at bound
        omega
      subst top
      simp only [List.getElem?_concat_length, Option.some.injEq] at found
      refine ⟨c, ?_, t, Nat.lt_succ_self t, made, found, standing.all.symm⟩
      rw [standing.all, List.getElem?_concat_length]
  · intro n hn dropped
    rcases givenUp_succ_iff.mp dropped with earlier | ⟨drops, _⟩
    · rcases List.mem_append.mp hn with old | new
      · exact standing.kept n old earlier
      · have known := earlier.lt
        rw [List.mem_singleton.mp new] at known
        exact Nat.lt_irrefl _ known
    · rw [made] at drops
      cases drops

/-- A dropped guard leaves the calls below its own place. Its own call can be nowhere else. -/
theorem drop {k : Nat} {g : Guard} (standing : Standing steps t numbers)
    (made : steps[t]? = some (.drop k)) (held : (upTo steps t).held? k = some g) :
    Standing steps (t + 1) (numbers.take (g.depth - 1)) := by
  have next : (upTo steps (t + 1)).stack.calls =
      (upTo steps t).stack.calls.take (g.depth - 1) := by
    rw [upTo_succ made]
    simp only [step, History.drop, held]
    rfl
  refine ⟨?_, ?_, ?_, ?_⟩
  · exact standing.ascending.sublist (List.take_sublist ..)
  · rw [next, List.length_take, List.length_take, standing.all]
  · intro place n found
    rw [List.getElem?_take] at found
    obtain ⟨below, found⟩ := Option.ite_none_right_eq_some.mp found
    obtain ⟨c, there, opened⟩ := standing.opened place n found
    rw [next, List.getElem?_take, if_pos below]
    exact ⟨c, there, opened.mono (Nat.le_succ t)⟩
  · intro n hn dropped
    rcases givenUp_succ_iff.mp dropped with earlier | ⟨drops, _⟩
    · exact standing.kept n (List.mem_of_mem_take hn) earlier
    · rw [made] at drops
      cases drops
      obtain ⟨own, depth, atOwn⟩ := opened_of_held held
      obtain ⟨place, found⟩ := List.getElem?_of_mem hn
      rw [List.getElem?_take] at found
      obtain ⟨below, found⟩ := Option.ite_none_right_eq_some.mp found
      obtain ⟨c, _, atPlace⟩ := standing.opened place k found
      have same : place = own := (atPlace.unique atOwn).2
      omega

end Standing

/-- By induction on the steps: whatever is opened or dropped, the calls that stand are calls whose
guards were not dropped, each at its own place. -/
theorem exists_standing (steps : List Step) (t : Nat) : ∃ numbers, Standing steps t numbers := by
  induction t with
  | zero => exact ⟨[], .nil, rfl, by simp, by simp⟩
  | succ t ih =>
    obtain ⟨numbers, standing⟩ := ih
    cases made : steps[t]? with
    | none =>
      exact ⟨numbers, standing.unchanged (by rw [upTo_succ_of_none made]) (by simp [made])⟩
    | some s =>
      cases s with
      | push c => exact ⟨_, standing.push made⟩
      | forget k =>
        exact ⟨numbers, standing.unchanged (by rw [upTo_succ made]; rfl) (by simp [made])⟩
      | drop k =>
        cases held : (upTo steps t).held? k with
        | some g => exact ⟨_, standing.drop made held⟩
        | none =>
          refine ⟨numbers, standing.unchanged ?_ ?_⟩
          · rw [upTo_succ made]
            simp only [step, drop, held]
          · intro n drops
            rw [made] at drops
            cases drops
            exact held

/-! ## Scopes -/

/-- The stack still has on it what was there before call number `n`, and that call. Guards handed
out later know places above it. -/
structure Upholds (h : History) (n : Nat) (base : CallStack) (c : Call) : Prop where
  below : (base.push c).calls <+: h.stack.calls
  above : ∀ later g, n < later → h.held? later = some g → (base.push c).depth < g.depth

theorem Upholds.step {h : History} {base : CallStack} {c : Call} {s : Step}
    (upholds : h.Upholds n base c) (held : (h.held? n).isSome)
    (held' : ((h.step s).held? n).isSome)
    (nested : ∀ k, s = .drop k → (h.held? k).isSome →
      ∀ later, k < later → h.held? later = none) :
    (h.step s).Upholds n base c := by
  refine ⟨?_, ?_⟩
  · cases s with
    | push d => exact upholds.below.trans (List.prefix_append ..)
    | forget k => exact upholds.below
    | drop k =>
      cases holds : h.held? k with
      | none =>
        simp only [History.step, drop, holds]
        exact upholds.below
      | some g =>
        have other : k ≠ n := by
          intro own
          rw [History.step, held?_drop, if_pos own] at held'
          cases held'
        have inner : n < k := by
          by_contra outer
          have none := nested k rfl (Option.isSome_of_eq_some holds) n (by omega)
          rw [none] at held
          cases held
        have room : (base.push c).depth < g.depth := upholds.above k g inner holds
        simp only [History.step, drop, holds]
        exact List.prefix_take_iff.mpr ⟨upholds.below, Nat.le_sub_one_of_lt room⟩
  · intro later g inner holds
    rcases held_step_cases holds with before | ⟨d, rfl, rfl, rfl⟩
    · exact upholds.above later g inner before
    · exact Nat.lt_succ_of_le upholds.below.length_le

/-- By induction on the steps behind the one that handed the guard out. -/
theorem upholds_upTo (nested : Nested steps) {c : Call} (pushed : steps[t]? = some (.push c))
    (later : t < u) (held : ((upTo steps u).held? (upTo steps t).guards.length).isSome) :
    (upTo steps u).Upholds (upTo steps t).guards.length (upTo steps t).stack c := by
  induction later with
  | refl =>
    rw [upTo_succ pushed]
    refine ⟨List.prefix_refl _, ?_⟩
    intro later g inner holds
    have known := lt_of_held (Option.isSome_of_eq_some holds)
    simp only [step, push, List.length_append, List.length_singleton] at known
    omega
  | @step u after ih =>
    cases made : steps[u]? with
    | none =>
      rw [upTo_succ_of_none made] at held ⊢
      exact ih held
    | some s =>
      rw [upTo_succ made] at held ⊢
      obtain ⟨g, holds⟩ := Option.isSome_iff_exists.mp held
      have known : (upTo steps t).guards.length < (upTo steps u).guards.length :=
        Opened.lt ⟨t, after, pushed, rfl, rfl⟩
      rcases held_step_cases holds with before | ⟨_, _, new, _⟩
      · have held' := Option.isSome_of_eq_some before
        refine (ih held').step held' held ?_
        rintro k rfl
        exact nested u k made
      · omega

/-- A guard whose scope is nested gives back the stack it was handed out on. -/
theorem stack_of_dropped (nested : Nested steps) {c : Call} (pushed : steps[t]? = some (.push c))
    (dropped : steps[u]? = some (.drop (upTo steps t).guards.length))
    (held : ((upTo steps u).held? (upTo steps t).guards.length).isSome) :
    (upTo steps (u + 1)).stack = (upTo steps t).stack := by
  have later : t < u := by
    by_contra before
    have known := lt_of_held held
    have count : (upTo steps u).guards.length ≤ (upTo steps t).guards.length :=
      length_guards_mono (Nat.le_of_not_lt before)
    omega
  obtain ⟨g, holds⟩ := Option.isSome_iff_exists.mp held
  have own : g = (upTo steps t).stack.guard c := by
    obtain ⟨place, depth, opened⟩ := opened_of_held holds
    have opened' : Opened steps (t + 1) (upTo steps t).guards.length c (upTo steps t).stack.depth :=
      ⟨t, Nat.lt_succ_self t, pushed, rfl, rfl⟩
    obtain ⟨call, here⟩ := opened.unique opened'
    rw [CallStack.guard, ← call, ← here, ← depth]
  rw [upTo_succ dropped]
  simp only [step, drop, holds, own]
  exact CallStack.drop_guard (upholds_upTo nested pushed later held).below

/-- **Guards keep the call stack.** In whatever order they are dropped or leaked, the calls on the
stack are calls whose guards were not dropped, in the order in which they were opened and each where
it was opened. Where scopes nest, a dropped guard gives back the stack as it was before its call,
and what was leaked inside goes with it. Where nothing is leaked, the stack is empty once no guard
is held. -/
theorem guards_restore (steps : List Step) :
    (∀ t, ∃ numbers, Standing steps t numbers) ∧
      (Nested steps → ∀ t u c, steps[t]? = some (.push c) →
        steps[u]? = some (.drop (upTo steps t).guards.length) →
        ((upTo steps u).held? (upTo steps t).guards.length).isSome →
        (upTo steps (u + 1)).stack = (upTo steps t).stack) ∧
      (∀ t, (∀ n, ¬ Leaked steps t n) → (∀ n, (upTo steps t).held? n = none) →
        (upTo steps t).stack.calls = []) ∧
      ∀ t, (upTo steps t).stack.depth = (upTo steps t).stack.calls.length ∧
        ((upTo steps t).stack.isEmpty = true ↔ (upTo steps t).stack.calls = []) ∧
        (upTo steps t).stack.top? = (upTo steps t).stack.calls.getLast? := by
  refine ⟨exists_standing steps, ?_, ?_, ?_⟩
  · intro nested t u c pushed dropped held
    exact stack_of_dropped nested pushed dropped held
  · intro t noneLeaked noneHeld
    obtain ⟨numbers, standing⟩ := exists_standing steps t
    have empty : numbers = [] := by
      apply List.eq_nil_iff_forall_not_mem.mpr
      intro n hn
      obtain ⟨_, _, _, opened⟩ := standing.opened_of_mem hn
      rcases held_or_givenUp opened.lt with held | dropped | leaked
      · rw [noneHeld n] at held
        cases held
      · exact standing.kept n hn dropped
      · exact noneLeaked n leaked
    apply List.eq_nil_of_length_eq_zero
    rw [← standing.all, empty, List.length_nil]
  · intro t
    exact ⟨rfl, List.isEmpty_iff, rfl⟩

/-- In the first history the innermost guard is leaked and its call goes with the one around it. In
the second the outer guard is dropped first, so that the inner one finds its call gone. -/
theorem guards_restore_outOfOrder :
    let leaky : List Step := [.push (.native 1 0), .push (.entry 2 0 8 48), .push (.native 3 1),
      .forget 2, .drop 1]
    let crossed : List Step := [.push (.native 1 0), .push (.native 2 0), .drop 0, .drop 1]
    Nested leaky ∧ (upTo leaky 4).stack.depth = 3 ∧
      (upTo leaky 5).stack = (upTo leaky 1).stack ∧ (upTo leaky 1).stack.depth = 1 ∧
      (∀ n, ¬ Leaked crossed 4 n) ∧ (∀ n, (upTo crossed 4).held? n = none) ∧
      (upTo crossed 4).stack.calls = [] := by
  intro leaky crossed
  have nested : Nested leaky := by
    intro t n made held later inner
    rcases t with _ | _ | _ | _ | _ | t <;> simp [leaky] at made
    subst made
    rcases later with _ | _ | _ | later
    · exact absurd inner (by decide)
    · exact absurd inner (by decide)
    · rfl
    · rfl
  have kept : ∀ n, ¬ Leaked crossed 4 n := by
    rintro n ⟨t, _, made, _⟩
    rcases t with _ | _ | _ | _ | t <;> simp [crossed] at made
  have dropped : ∀ n, (upTo crossed 4).held? n = none := by
    intro n
    rcases n with _ | _ | n <;> rfl
  obtain ⟨_, restored, _⟩ := guards_restore leaky
  obtain ⟨_, _, emptied, _⟩ := guards_restore crossed
  exact ⟨nested, rfl, restored nested 1 4 _ rfl rfl rfl, rfl, kept, dropped,
    emptied 4 kept dropped⟩

end History

end Postmortem
