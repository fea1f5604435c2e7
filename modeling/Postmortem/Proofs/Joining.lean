import Postmortem.Proofs.Attribution
import Postmortem.Proofs.Stitching

/-!
# Backtraces put together

The backtrace for a stack of calls is made of backtraces for parts of the stack, whatever the memory
of the machine holds.

* `Machine.standingAt`: a machine that stands at another place.
* `Backtrace.innermost_append`: which of the calls are looked at.
* `Backtrace.ofCalls_joined`: calls under a call of another machine do not matter. A nested run
  comes first, and behind it the backtrace that there was when the run began.
-/

namespace Postmortem

/-- The machine as it is, but for where it stands. -/
def Machine.standingAt (m : Machine) (place : Place) : Machine :=
  { m with registers := { m.registers with cip := place.ip, frm := place.fp } }

namespace Backtrace

variable {m : Machine} {i : Instance} {modules : ModuleMap}

/-- Where a machine stands matters only for the first run of a walk. -/
theorem ofRuns_standingAt (found place : Place) (calls : List Call) :
    ofRuns (m.standingAt found) i modules place.ip place.fp calls =
      ofRuns m i modules place.ip place.fp calls := by
  induction calls generalizing place with
  | nil => rfl
  | cons c older ih =>
    cases c with
    | native owner index =>
      rw [ofRuns, ofRuns, ih]
      rfl
    | entry owner index ip fp =>
      rw [ofRuns, ofRuns, ih ⟨ip, fp⟩]
      rfl

/-- Of older calls those count that the owner of the newer ones made without interruption. -/
theorem innermost_append {owner : Handle} {newer : List Call} (nonempty : newer ≠ [])
    (own : ∀ c ∈ newer, c.owner = owner) (older : List Call) :
    innermost (older ++ newer) = newer.reverse ++ older.reverse.takeWhile (·.owner = owner) := by
  cases newest : newer.getLast? with
  | none => exact absurd (List.getLast?_eq_none_iff.mp newest) nonempty
  | some top =>
    have topOwner : top.owner = owner := own top (List.mem_of_getLast? newest)
    have topmost : (older ++ newer).getLast? = some top := by simp [newest]
    simp only [innermost, topmost, topOwner, List.reverse_append]
    apply List.takeWhile_append_of_pos
    intro c hc
    simp [own c (List.mem_reverse.mp hc)]

theorem takeWhile_owner_of_foreign {owner : Handle} {older : List Call}
    (foreign : ∀ top, older.getLast? = some top → top.owner ≠ owner) :
    older.reverse.takeWhile (·.owner = owner) = [] := by
  cases newest : older.getLast? with
  | none => simp [List.getLast?_eq_none_iff.mp newest]
  | some top =>
    obtain ⟨before, rfl⟩ := List.getLast?_eq_some_iff.mp newest
    simp [foreign top newest]

theorem takeWhile_owner_of_top {older : List Call} {top : Call}
    (newest : older.getLast? = some top) :
    older.reverse.takeWhile (·.owner = top.owner) = innermost older := by
  simp [innermost, newest]

/-- A nested run comes first, and behind it what is shown for the calls that it interrupted. -/
theorem ofRuns_entry_append (place : Place) (owner : Handle) (index : Int32) (found : Place)
    (newer older : List Call) :
    ofRuns m i modules place.ip place.fp
        ((Call.entry owner index found.ip found.fp :: newer).reverse ++ older) =
      ofRuns m i modules place.ip place.fp
          (Call.entry owner index found.ip found.fp :: newer).reverse ++
        ofRuns (m.standingAt found) i modules found.ip found.fp older := by
  have resumes : resumed place (Call.entry owner index found.ip found.fp :: newer).reverse =
      found := by
    rw [List.reverse_cons, resumed_append]
    rfl
  rw [ofRuns_append, resumes, ofRuns_standingAt]

theorem ofCalls_nested {owner : Handle} {newer : List Call} (own : ∀ c ∈ newer, c.owner = owner)
    (index : Int32) (found : Place) (older : List Call) :
    ofCalls m i modules (older ++ Call.entry owner index found.ip found.fp :: newer) =
      ofCalls m i modules (Call.entry owner index found.ip found.fp :: newer) ++
        ofRuns (m.standingAt found) i modules found.ip found.fp
          (older.reverse.takeWhile (·.owner = owner)) := by
  have nestedOwn : ∀ c ∈ Call.entry owner index found.ip found.fp :: newer, c.owner = owner :=
    List.forall_mem_cons.mpr ⟨rfl, own⟩
  rw [ofCalls, innermost_append (by simp) nestedOwn, ofCalls,
    innermost_of_owner nestedOwn]
  exact ofRuns_entry_append ⟨m.registers.cip, m.registers.frm⟩ owner index found newer _

end Backtrace

namespace Monitor

theorem implicated?_of_append {d : Monitor} {w : Handle} {older newer : List Call}
    (nonempty : newer ≠ []) (own : ∀ c ∈ newer, c.owner = w)
    (calls : d.calls.calls = older ++ newer) : d.implicated? = some w := by
  cases newest : newer.getLast? with
  | none => exact absurd (List.getLast?_eq_none_iff.mp newest) nonempty
  | some top =>
    have topmost : d.calls.top? = some top := by simp [CallStack.top?, calls, newest]
    rw [implicated?, topmost, Option.map_some, own top (List.mem_of_getLast? newest)]

theorem backtrace_of_known {s : Monitor} {w : Handle} {i : Instance} (top : s.implicated? = some w)
    (known : s.instance? w = some i) (h : Host) :
    s.backtrace h = .ofCalls (h.machine i.view) i s.services.modules s.calls.calls := by
  obtain ⟨call, newest, rfl⟩ := Option.map_eq_some_iff.mp top
  rw [backtrace, newest, Option.bind_some, known]

end Monitor

namespace Backtrace

open Monitor

variable {m : Machine} {i : Instance} {modules : ModuleMap}

/-- **Backtraces are put together.** What lies under a call of another machine does not matter. A
nested run and what came after it are shown as if nothing were under them, and behind them what was
shown when the machine stood where the nested run found it. So a monitor shows behind a nested run
the very backtrace that it had before it entered that run, if the memory is still the same. -/
theorem ofCalls_joined (m : Machine) (i : Instance) (modules : ModuleMap) (owner : Handle) :
    (∀ older newer : List Call, newer ≠ [] → (∀ c ∈ newer, c.owner = owner) →
      (∀ top, older.getLast? = some top → top.owner ≠ owner) →
      ofCalls m i modules (older ++ newer) = ofCalls m i modules newer) ∧
    (∀ (older newer : List Call) (index : Int32) (found : Place),
      (∀ c ∈ older ++ newer, c.owner = owner) →
      ofCalls m i modules (older ++ Call.entry owner index found.ip found.fp :: newer) =
        ofCalls m i modules (Call.entry owner index found.ip found.fp :: newer) ++
          ofCalls (m.standingAt found) i modules older) ∧
    ∀ (s d : Monitor) (h h' : Host) (index : Int32) (newer : List Call) (place : Place),
      (h.machine i.view).handle = owner → s.implicated? = some owner →
      s.instance? owner = some i → d.instance? owner = some i → d.services = s.services →
      d.calls.calls = (s.enterEntry h i.view index).calls.calls ++ newer →
      (∀ c ∈ newer, c.owner = owner) →
      h'.machine i.view = (h.machine i.view).standingAt place →
      d.backtrace h' =
        ofCalls (h'.machine i.view) i d.services.modules
          (Monitor.entryCall (h.machine i.view) index :: newer) ++ s.backtrace h := by
  refine ⟨?_, ?_, ?_⟩
  · intro older newer nonempty own foreign
    rw [ofCalls, innermost_append nonempty own, takeWhile_owner_of_foreign foreign, List.append_nil,
      ofCalls, innermost_of_owner own]
  · intro older newer index found own
    have ownOlder := fun c hc => own c (List.mem_append_left newer hc)
    have ownNewer := fun c hc => own c (List.mem_append_right older hc)
    have all : older.reverse.takeWhile (·.owner = owner) = innermost older := by
      rw [innermost_of_owner ownOlder, List.takeWhile_eq_self_iff]
      intro c hc
      simp [ownOlder c (List.mem_reverse.mp hc)]
    rw [ofCalls_nested ownNewer, all]
    rfl
  · rintro s d h h' index newer place rfl top known stillKnown services opened own stands
    obtain ⟨outer, newest, outerOwner⟩ := Option.map_eq_some_iff.mp top
    let found : Place := ⟨(h.machine i.view).registers.cip, (h.machine i.view).registers.frm⟩
    let nested := Call.entry (h.machine i.view).handle index found.ip found.fp :: newer
    have calls : d.calls.calls = s.calls.calls ++ nested := by
      rw [opened, enterEntry, push, CallStack.calls_push, List.append_assoc]
      rfl
    have nestedOwn : ∀ c ∈ nested, c.owner = (h.machine i.view).handle :=
      List.forall_mem_cons.mpr ⟨rfl, own⟩
    have nestedTop : d.implicated? = some (h.machine i.view).handle :=
      implicated?_of_append (by simp [nested]) nestedOwn calls
    have older : s.calls.calls.reverse.takeWhile (·.owner = (h.machine i.view).handle) =
        innermost s.calls.calls := by
      rw [← outerOwner]
      exact takeWhile_owner_of_top newest
    rw [backtrace_of_known nestedTop stillKnown, backtrace_of_known top known, calls, stands,
      ofCalls_nested own, older, services]
    rfl

/-- A monitor of the timers when the first of them goes off, and the calls that follow. -/
def timerMonitor (later : List Call) : Monitor :=
  { Monitor.start {} .system {} with
    calls := ⟨[.entry 1 0 0 0, .native 1 0, .native 1 1] ++ later⟩
    registry :=
      { locator := ⟨[], "amx"⟩, source := .withheld, entries := [(1, ⟨0, none, none, none⟩)] } }

theorem ofCalls_joined_timerRuns :
    let i : Instance := ⟨0, none, none, none⟩
    let found : Place := ⟨8, 48⟩
    let before : Host := { machine := fun _ => timerMachine.standingAt found }
    let after : Host := { machine := fun _ => timerMachine }
    let outer := (timerMonitor []).calls.calls
    let nested : List Call := [.entry 1 1 8 48, .entry 1 1 20 48]
    ofCalls timerMachine i (fun _ => none) (.native 2 0 :: outer) =
        ofCalls timerMachine i (fun _ => none) outer ∧
      ofCalls timerMachine i (fun _ => none) (outer ++ nested) =
        ofCalls timerMachine i (fun _ => none) nested ++
          ofCalls (timerMachine.standingAt found) i (fun _ => none) outer ∧
      (timerMonitor nested).backtrace after =
        ofCalls timerMachine i (fun _ => none) nested ++ (timerMonitor []).backtrace before ∧
      ((timerMonitor []).backtrace before).map TraceEntry.text =
        ["native SetTimer () [00005000]", "00000008 in 00000010 ()",
          "0000000c in 00000004 ()"] := by
  intro i found before after outer nested
  obtain ⟨cut, joined, shown⟩ := ofCalls_joined timerMachine i (fun _ => none) 1
  refine ⟨cut [.native 2 0] outer (by decide) (by decide) (by decide), ?_, ?_, by decide +kernel⟩
  · exact joined outer [.entry 1 1 20 48] 1 found (by decide)
  · exact shown (timerMonitor []) (timerMonitor nested) before after 1 [.entry 1 1 20 48] ⟨24, 24⟩
      rfl rfl rfl rfl rfl rfl (by decide) rfl

end Backtrace

end Postmortem
