import Postmortem.Proofs.Story

/-!
# The course of a run

A run goes from one program to the next: from a step to what follows it, from a call into its body,
and from the end of the body to what follows the call. On its way the monitor does one deed after
another, each with the host as it is by then.

* `Program.Reaches`: where a run comes to, with the deeds done until then.
* `Program.reaches_over_iff`: a run comes to its end, and to no other end.
* `Program.Reaches.trans`: what comes next is reached from what was reached before.
* `Program.Reaches.replay`: a monitor is what its deeds made of it.
-/

namespace Postmortem

namespace Monitor

/-- One operation of a monitor. -/
inductive Deed where
  | took (n : Notice)
  | heard (view : Nat) (index : Int32) (fault : Fault)
  | checkedRelease (view : Nat) (address : Cell) (caller : UInt64)
  | enteredEntry (view : Nat) (index : Int32)
  | leftEntry (view : Nat) (index : Int32) (g : Guard) (outcome : Outcome)
  | enteredNative (view : Nat) (index : Int32)
  | leftNative (g : Guard) (outcome : Outcome)
  | abandoned (g : Guard)

def perform (s : Monitor) (host : Host) : Deed → Monitor
  | .took n => (s.take host n).1
  | .heard view index fault => (s.hear host view index fault).2.1
  | .checkedRelease view address caller => (s.checkRelease host view address caller).1
  | .enteredEntry view index => s.enterEntry host view index
  | .leftEntry view index g outcome => (s.leaveEntry host view index g outcome).1
  | .enteredNative view index => s.enterNative host view index
  | .leftNative g outcome => s.leaveNative g outcome
  | .abandoned g => s.abandon g

/-- A deed, and the host when it was done. -/
structure Event where
  deed : Deed
  host : Host

/-- What a monitor has become after its deeds, oldest first. -/
def replay (s : Monitor) (past : List Event) : Monitor :=
  past.foldl (fun s e => s.perform e.host e.deed) s

@[simp] theorem replay_nil (s : Monitor) : s.replay [] = s := rfl

@[simp] theorem replay_cons (s : Monitor) (e : Event) (past : List Event) :
    s.replay (e :: past) = (s.perform e.host e.deed).replay past := rfl

@[simp] theorem replay_append (s : Monitor) (past later : List Event) :
    s.replay (past ++ later) = (s.replay past).replay later := List.foldl_append ..

end Monitor

/-- Where a run stands. -/
inductive Stand (ν : Type) where
  | before (p : Lone ν)
  /-- There is no outcome after a panic. -/
  | over (outcome : Option Outcome)

namespace Program

open Monitor

variable {ν : Type}

/-- A run of a program that starts with a monitor and a host, the deeds on the way to a place in it,
and the monitor and the host there. A panic leaves the calls it passes through and is no place of
its own. -/
inductive Reaches : Lone ν → Monitor → Host → List Event → Stand ν → Monitor → Host → Prop
  | here (p : Lone ν) (s : Monitor) (h : Host) : Reaches p s h [] (.before p) s h
  | done (outcome : Outcome) (s : Monitor) (h : Host) :
      Reaches (.done outcome) s h [] (.over (some outcome)) s h
  | panic (s : Monitor) (h : Host) : Reaches .panic s h [] (.over none) s h
  | note {next s h past w t g} (n : ν) (rest : Reaches next s h past w t g) :
      Reaches (.note n next) s h past w t g
  | change {next s h past w t g} (f : Host → Host) (rest : Reaches next s (f h) past w t g) :
      Reaches (.change f next) s h past w t g
  | inspect {next : Option Monitor → Host → Lone ν} {s h past w t g}
      (rest : Reaches (next (some s) h) s h past w t g) : Reaches (.inspect next) s h past w t g
  | tell {next s h past w t g} (n : Notice) (rest : Reaches next (s.take h n).1 h past w t g) :
      Reaches (.tell n next) s h (⟨.took n, h⟩ :: past) w t g
  | raise {next s h past w t g} (view : Nat) (index : Int32) (fault : Fault)
      (rest : Reaches (next (some (s.hear h view index fault).1))
        (s.hear h view index fault).2.1 h past w t g) :
      Reaches (.raise view index fault next) s h (⟨.heard view index fault, h⟩ :: past) w t g
  | inRelease {body next s h past q t g} (view : Nat) (address : Cell) (caller : UInt64)
      (inner : Reaches body (s.checkRelease h view address caller).1 h past (.before q) t g) :
      Reaches (.release view address caller body next) s h
        (⟨.checkedRelease view address caller, h⟩ :: past) (.before q) t g
  | releasePanicked {body next s h past t g} (view : Nat) (address : Cell) (caller : UInt64)
      (inner : Reaches body (s.checkRelease h view address caller).1 h past (.over none) t g) :
      Reaches (.release view address caller body next) s h
        (⟨.checkedRelease view address caller, h⟩ :: past) (.over none) t g
  | release {body next s h past outcome d h' later w t g} (view : Nat) (address : Cell)
      (caller : UInt64)
      (inner : Reaches body (s.checkRelease h view address caller).1 h past (.over (some outcome))
        d h')
      (rest : Reaches (next (some outcome)) d h' later w t g) :
      Reaches (.release view address caller body next) s h
        (⟨.checkedRelease view address caller, h⟩ :: past ++ later) w t g
  | inEntry {body next s h past q t g} (view : Nat) (index : Int32)
      (inner : Reaches body (s.enterEntry h view index) h past (.before q) t g) :
      Reaches (.enter view index body next) s h (⟨.enteredEntry view index, h⟩ :: past)
        (.before q) t g
  | entryPanicked {body next s h past t g} (view : Nat) (index : Int32)
      (inner : Reaches body (s.enterEntry h view index) h past (.over none) t g) :
      Reaches (.enter view index body next) s h
        (⟨.enteredEntry view index, h⟩ :: past ++ [⟨.abandoned (entryGuard s h view index), g⟩])
        (.over none) (t.abandon (entryGuard s h view index)) g
  | entry {body next s h past outcome d h' later w t g} (view : Nat) (index : Int32)
      (inner : Reaches body (s.enterEntry h view index) h past (.over (some outcome)) d h')
      (rest : Reaches (next (some outcome))
        (d.leaveEntry h' view index (entryGuard s h view index) outcome).1 h' later w t g) :
      Reaches (.enter view index body next) s h
        (⟨.enteredEntry view index, h⟩ :: past ++
          ⟨.leftEntry view index (entryGuard s h view index) outcome, h'⟩ :: later) w t g
  | inNative {body next s h past q t g} (view : Nat) (index : Int32)
      (inner : Reaches (handled (s.enterNative h view index) h view body)
        (s.enterNative h view index) h past (.before q) t g) :
      Reaches (.native view index body next) s h (⟨.enteredNative view index, h⟩ :: past)
        (.before q) t g
  | nativePanicked {body next s h past t g} (view : Nat) (index : Int32)
      (inner : Reaches (handled (s.enterNative h view index) h view body)
        (s.enterNative h view index) h past (.over none) t g) :
      Reaches (.native view index body next) s h
        (⟨.enteredNative view index, h⟩ :: past ++ [⟨.abandoned (nativeGuard s h view index), g⟩])
        (.over none) (t.abandon (nativeGuard s h view index)) g
  | native {body next s h past outcome d h' later w t g} (view : Nat) (index : Int32)
      (inner : Reaches (handled (s.enterNative h view index) h view body)
        (s.enterNative h view index) h past (.over (some outcome)) d h')
      (rest : Reaches (next (some outcome))
        (d.leaveNative (nativeGuard s h view index) outcome) h' later w t g) :
      Reaches (.native view index body next) s h
        (⟨.enteredNative view index, h⟩ :: past ++
          ⟨.leftNative (nativeGuard s h view index) outcome, h'⟩ :: later) w t g
  | inGuarded {body next s h past q t g} (inner : Reaches body s h past (.before q) t g) :
      Reaches (.guarded body next) s h past (.before q) t g
  | guarded {body next s h past outcome d h' later w t g}
      (inner : Reaches body s h past (.over outcome) d h')
      (rest : Reaches (next outcome) d h' later w t g) :
      Reaches (.guarded body next) s h (past ++ later) w t g

variable {p q : Lone ν} {s t : Monitor} {h g : Host} {past : List Event} {w : Stand ν}

theorem Tells.reaches {r : Run Monitor ν} {story : Story} (told : Tells p s h r story) :
    ∃ past, Reaches p s h past (.over r.outcome) r.desk r.host := by
  induction told with
  | done outcome s h => exact ⟨_, .done outcome s h⟩
  | panic s h => exact ⟨_, .panic s h⟩
  | note n _ ih =>
    obtain ⟨past, rest⟩ := ih
    exact ⟨_, .note n rest⟩
  | change f _ ih =>
    obtain ⟨past, rest⟩ := ih
    exact ⟨_, .change f rest⟩
  | inspect _ ih =>
    obtain ⟨past, rest⟩ := ih
    exact ⟨_, .inspect rest⟩
  | tell n _ ih =>
    obtain ⟨past, rest⟩ := ih
    exact ⟨_, .tell n rest⟩
  | raise view index fault _ ih =>
    obtain ⟨past, rest⟩ := ih
    exact ⟨_, .raise view index fault rest⟩
  | releasePanicked view address caller _ ih =>
    obtain ⟨past, inner⟩ := ih
    exact ⟨_, .releasePanicked view address caller inner⟩
  | release view address caller _ _ ihb ihn =>
    obtain ⟨past, inner⟩ := ihb
    obtain ⟨later, rest⟩ := ihn
    exact ⟨_, .release view address caller inner rest⟩
  | entryPanicked view index _ ih =>
    obtain ⟨past, inner⟩ := ih
    exact ⟨_, .entryPanicked view index inner⟩
  | entry view index _ _ ihb ihn =>
    obtain ⟨past, inner⟩ := ihb
    obtain ⟨later, rest⟩ := ihn
    exact ⟨_, .entry view index inner rest⟩
  | nativePanicked view index _ ih =>
    obtain ⟨past, inner⟩ := ih
    exact ⟨_, .nativePanicked view index inner⟩
  | native view index _ _ ihb ihn =>
    obtain ⟨past, inner⟩ := ihb
    obtain ⟨later, rest⟩ := ihn
    exact ⟨_, .native view index inner rest⟩
  | guarded _ _ ihb ihn =>
    obtain ⟨past, inner⟩ := ihb
    obtain ⟨later, rest⟩ := ihn
    exact ⟨_, .guarded inner rest⟩

/-- By induction on the way to the end. -/
theorem Reaches.run_eq {outcome : Option Outcome} (ended : Reaches p s h past (.over outcome) t g) :
    ∃ trace, p.run s h = ⟨outcome, t, g, trace⟩ := by
  generalize hw : Stand.over outcome = w at ended
  induction ended generalizing outcome with
  | here | inRelease | inEntry | inNative | inGuarded => cases hw
  | done | panic =>
    cases hw
    exact ⟨[], rfl⟩
  | note n _ ih =>
    obtain ⟨trace, ran⟩ := ih hw
    exact ⟨_, by rw [run, ran]; rfl⟩
  | change f _ ih => exact ih hw
  | inspect _ ih => exact ih hw
  | tell n _ ih =>
    obtain ⟨trace, ran⟩ := ih hw
    exact ⟨_, by simp only [run, Desk.tell, Desk.current?, Desk.serve, ran]; rfl⟩
  | raise view index fault _ ih =>
    obtain ⟨trace, ran⟩ := ih hw
    exact ⟨_, by simp only [run, Desk.current?, Desk.serve, ran]; rfl⟩
  | releasePanicked view address caller _ ih =>
    cases hw
    obtain ⟨trace, ran⟩ := ih rfl
    exact ⟨_, by rw [run_release, ran]; rfl⟩
  | release view address caller _ _ ihb ihn =>
    obtain ⟨inside, ranBody⟩ := ihb rfl
    obtain ⟨trace, ran⟩ := ihn hw
    exact ⟨_, by simp only [run_release, ranBody, ran]; rfl⟩
  | entryPanicked view index _ ih =>
    cases hw
    obtain ⟨trace, ran⟩ := ih rfl
    exact ⟨_, by rw [run_enter, ran]⟩
  | entry view index _ _ ihb ihn =>
    obtain ⟨inside, ranBody⟩ := ihb rfl
    obtain ⟨trace, ran⟩ := ihn hw
    exact ⟨_, by simp only [run_enter, ranBody, ran]; rfl⟩
  | nativePanicked view index _ ih =>
    cases hw
    obtain ⟨trace, ran⟩ := ih rfl
    exact ⟨_, by rw [run_native, ran]⟩
  | native view index _ _ ihb ihn =>
    obtain ⟨inside, ranBody⟩ := ihb rfl
    obtain ⟨trace, ran⟩ := ihn hw
    exact ⟨_, by simp only [run_native, ranBody, ran]; rfl⟩
  | guarded _ _ ihb ihn =>
    obtain ⟨inside, ranBody⟩ := ihb rfl
    obtain ⟨trace, ran⟩ := ihn hw
    exact ⟨_, by simp only [run, ranBody, ran]; rfl⟩

/-- A run comes to its end, and to no other. -/
theorem reaches_over_iff {outcome : Option Outcome} :
    (∃ past, Reaches p s h past (.over outcome) t g) ↔
      ∃ trace, p.run s h = ⟨outcome, t, g, trace⟩ := by
  constructor
  · rintro ⟨past, ended⟩
    exact ended.run_eq
  · rintro ⟨trace, ran⟩
    have ended := (tells_run p s h).reaches
    rwa [ran] at ended

/-- What is before a run at some place of it is before it from the start. -/
theorem Reaches.trans {more : List Event} {q' : Lone ν} {u : Monitor} {k : Host}
    (way : Reaches p s h past (.before q) t g) (onward : Reaches q t g more (.before q') u k) :
    Reaches p s h (past ++ more) (.before q') u k := by
  generalize hw : Stand.before q = w at way
  induction way with
  | here =>
    cases hw
    exact onward
  | done | panic | releasePanicked | entryPanicked | nativePanicked => cases hw
  | note n _ ih => exact .note n (ih onward hw)
  | change f _ ih => exact .change f (ih onward hw)
  | inspect _ ih => exact .inspect (ih onward hw)
  | tell n _ ih => exact .tell n (ih onward hw)
  | raise view index fault _ ih => exact .raise view index fault (ih onward hw)
  | inRelease view address caller _ ih =>
    cases hw
    exact .inRelease view address caller (ih onward rfl)
  | release view address caller inner _ _ ihn =>
    rw [List.append_assoc]
    exact .release view address caller inner (ihn onward hw)
  | inEntry view index _ ih =>
    cases hw
    exact .inEntry view index (ih onward rfl)
  | entry view index inner _ _ ihn =>
    rw [List.append_assoc, List.cons_append]
    exact .entry view index inner (ihn onward hw)
  | inNative view index _ ih =>
    cases hw
    exact .inNative view index (ih onward rfl)
  | native view index inner _ _ ihn =>
    rw [List.append_assoc, List.cons_append]
    exact .native view index inner (ihn onward hw)
  | inGuarded _ ih =>
    cases hw
    exact .inGuarded (ih onward rfl)
  | guarded inner _ _ ihn =>
    rw [List.append_assoc]
    exact .guarded inner (ihn onward hw)

/-- A monitor is what its deeds made of it. -/
theorem Reaches.replay (way : Reaches p s h past w t g) : t = s.replay past := by
  induction way with
  | here | done | panic => rfl
  | note n _ ih => exact ih
  | change f _ ih => exact ih
  | inspect _ ih => exact ih
  | tell n _ ih => exact ih
  | raise view index fault _ ih => exact ih
  | inRelease view address caller _ ih => exact ih
  | releasePanicked view address caller _ ih => exact ih
  | release view address caller _ _ ihb ihn =>
    rw [ihn, ihb]
    simp [perform]
  | inEntry view index _ ih => exact ih
  | entryPanicked view index _ ih =>
    rw [ih]
    simp [perform]
  | entry view index _ _ ihb ihn =>
    rw [ihn, ihb]
    simp [perform]
  | inNative view index _ ih => exact ih
  | nativePanicked view index _ ih =>
    rw [ih]
    simp [perform]
  | native view index _ _ ihb ihn =>
    rw [ihn, ihb]
    simp [perform]
  | inGuarded _ ih => exact ih
  | guarded _ _ ihb ihn =>
    rw [ihn, ihb]
    simp

end Program

end Postmortem
