import Postmortem.Bridge
import Postmortem.Proofs.Json.Reading

/-!
# The seat of a bridge

A bridge has one seat for a monitor. A request that is refused leaves the seat and every monitor as
they were. Only settings in text form that are refused leave a failure behind, and it stays until
others are refused.

* `Bridge.Step`: a request, a notice, or the installation or use of a monitor.
* `Bridge.Refuses`: the first check that settings fail.
* `Bridge.arrivals_eq`: who came and did not go has the seat.
* `Bridge.one_seat`: what every request does to a bridge after any number of steps.
* `Bridge.leads_run`: whatever a program does on a bridge is such steps.
-/

namespace Postmortem

namespace Bridge

/-- What happens to a bridge. -/
inductive Step where
  | asked (host : Host) (r : Request)
  | told (host : Host) (n : Monitor.Notice)
  /-- A monitor is installed that may have been used elsewhere. -/
  | brought (s : Monitor)
  /-- A monitor that was installed is used, whether it is still in charge or not. -/
  | used (k : Nat) (f : Monitor → Monitor × List Effect)

def after (b : Bridge) : Step → Bridge
  | .asked host r => (b.answer host r).2
  | .told host n => (Desk.tell b (·.take host n)).1
  | .brought s => (b.install s).toOption.getD b
  | .used k f => (b.serve k f).1

def replay (b : Bridge) (past : List Step) : Bridge := past.foldl after b

@[simp] theorem replay_nil (b : Bridge) : b.replay [] = b := rfl

@[simp] theorem replay_cons (b : Bridge) (e : Step) (past : List Step) :
    b.replay (e :: past) = (b.after e).replay past := rfl

theorem replay_append (b : Bridge) (past later : List Step) :
    b.replay (past ++ later) = (b.replay past).replay later := List.foldl_append ..

/-- A monitor takes the seat, as its host is told. -/
def arrives (b : Bridge) : Step → Bool
  | .asked host (.start settings) => (b.answer host (.start settings)).1 = .status 0
  | .asked host (.install settings services) =>
    (b.answer host (.install settings services)).1 = .installed
  | .brought s => (b.install s).toOption.isSome
  | _ => false

/-- A monitor leaves the seat, as its host is told. -/
def departs (b : Bridge) : Step → Bool
  | .asked host .stop => (b.answer host .stop).1 = .status 1
  | .asked host .remove => (b.answer host .remove).1 = .removed true
  | _ => false

/-- How many of the steps are of a kind, each judged by the bridge as it is by then. -/
def count (kind : Bridge → Step → Bool) (b : Bridge) : List Step → Nat
  | [] => 0
  | e :: past => (kind b e).toNat + (b.after e).count kind past

/-- These are settings in text form, or none, and what they say. -/
inductive Reads : Option Bytes → Settings → Prop
  | default : Reads none {}
  | text {bytes : Bytes} {text : String} {settings : Settings}
      (unicode : String.fromUTF8? ⟨bytes.takeWhile (· ≠ 0)⟩ = some text)
      (read : Settings.read text = .ok settings) : Reads (some bytes) settings

/-- The first check that fails when a bridge is to start with these settings. -/
inductive Refuses (b : Bridge) : Option Bytes → Failure → Prop
  | notUnicode {bytes : Bytes} (garbled : String.fromUTF8? ⟨bytes.takeWhile (· ≠ 0)⟩ = none) :
      b.Refuses (some bytes) .notUnicode
  | settings {bytes : Bytes} {text : String} {cause : Settings.Error}
      (unicode : String.fromUTF8? ⟨bytes.takeWhile (· ≠ 0)⟩ = some text)
      (unread : Settings.read text = .error cause) : b.Refuses (some bytes) (.settings cause)
  | occupied {settings : Option Bytes} {s : Settings} (reads : Reads settings s)
      (full : b.seat.isSome) : b.Refuses settings .occupied

/-- The failure that a step leaves behind. -/
def refusal? (b : Bridge) : Step → Option Failure
  | .asked host (.start settings) =>
    match b.start host.environment settings with
    | .ok _ => none
    | .error f => some f
  | _ => none

/-- The failures that were left behind, oldest first. -/
def refusals (b : Bridge) : List Step → List Failure
  | [] => []
  | e :: past => (b.refusal? e).toList ++ (b.after e).refusals past

/-- The bridge with a monitor that has just come to it. -/
def seated (b : Bridge) (s : Monitor) : Bridge :=
  { b with monitors := b.monitors ++ [s], seat := some b.monitors.length }

variable {b : Bridge}

/-! ## Requests -/

theorem readSettings_spec (settings : Option Bytes) :
    (∃ s, Reads settings s ∧ readSettings settings = .ok s) ∨
      ∃ f, (∀ b : Bridge, b.Refuses settings f) ∧ readSettings settings = .error f := by
  cases settings with
  | none => exact .inl ⟨{}, .default, rfl⟩
  | some bytes =>
    unfold readSettings
    cases unicode : String.fromUTF8? ⟨bytes.takeWhile (· ≠ 0)⟩ with
    | none => exact .inr ⟨_, fun b => .notUnicode unicode, by simp only [unicode]⟩
    | some text =>
      cases read : Settings.read text with
      | ok s => exact .inl ⟨s, .text unicode read, by simp only [unicode, read]⟩
      | error cause =>
        exact .inr ⟨_, fun b => .settings unicode read, by simp only [unicode, read]⟩

theorem install_of_vacant (vacant : b.seat = none) (s : Monitor) :
    b.install s = .ok (b.seated s) := by
  simp [install, vacant, seated]

theorem install_of_full (full : b.seat.isSome) (s : Monitor) :
    b.install s = .error .occupied := by
  simp [install, full]

/-- A bridge starts with settings that can be read if its seat is vacant. Otherwise the first check
that fails is remembered, and nothing else changes. -/
theorem answer_start (b : Bridge) (host : Host) (settings : Option Bytes) :
    (∃ s, Reads settings s ∧ b.seat = none ∧ b.refusal? (.asked host (.start settings)) = none ∧
        b.answer host (.start settings) =
          (.status 0, b.seated (.start s .system host.environment))) ∨
      ∃ f, b.Refuses settings f ∧ b.refusal? (.asked host (.start settings)) = some f ∧
        b.answer host (.start settings) = (.status (-1), { b with lastFailure := some f }) := by
  -- The settings are read before anybody looks at the seat.
  rcases readSettings_spec settings with ⟨s, reads, read⟩ | ⟨f, refuses, unread⟩
  · by_cases full : b.seat.isSome
    · have refused : b.start host.environment settings = .error .occupied := by
        rw [start, read]
        exact install_of_full full _
      exact .inr ⟨.occupied, .occupied reads full, by simp only [refusal?, refused], by
        simp only [answer, refused, statusFailed]⟩
    · have vacant : b.seat = none := Option.not_isSome_iff_eq_none.mp full
      have started : b.start host.environment settings =
          .ok (b.seated (.start s .system host.environment)) := by
        rw [start, read]
        exact install_of_vacant vacant _
      exact .inl ⟨s, reads, vacant, by simp only [refusal?, started], by
        simp only [answer, started, statusOk]⟩
  · have refused : b.start host.environment settings = .error f := by
      rw [start, unread]
      rfl
    exact .inr ⟨f, refuses b, by simp only [refusal?, refused], by
      simp only [answer, refused, statusFailed]⟩

theorem answer_install (b : Bridge) (host : Host) (settings : Settings) (services : Services) :
    b.seat = none ∧ b.answer host (.install settings services) =
        (.installed, b.seated (.start settings services host.environment)) ∨
      b.seat.isSome ∧ b.answer host (.install settings services) = (.refused .occupied, b) := by
  by_cases full : b.seat.isSome
  · exact .inr ⟨full, by simp only [answer, install_of_full full]⟩
  · have vacant : b.seat = none := Option.not_isSome_iff_eq_none.mp full
    exact .inl ⟨vacant, by simp only [answer, install_of_vacant vacant]⟩

/-! ## Monitors at work -/

theorem serve_seat (b : Bridge) (k : Nat) (f : Monitor → Monitor × List Effect) :
    (b.serve k f).1.seat = b.seat := by
  unfold serve
  split <;> rfl

theorem serve_lastFailure (b : Bridge) (k : Nat) (f : Monitor → Monitor × List Effect) :
    (b.serve k f).1.lastFailure = b.lastFailure := by
  unfold serve
  split <;> rfl

/-- A notice is for the monitor in charge. -/
theorem tell_eq (b : Bridge) (f : Monitor → Monitor × List Effect) :
    (∃ k, Desk.tell b f = b.serve k f) ∨ Desk.tell b f = (b, []) := by
  unfold Desk.tell
  split
  · exact .inl ⟨_, rfl⟩
  · exact .inr rfl

/-! ## One step -/

/-- What a step does to the failure that a bridge remembers, and who has come or gone by then. -/
theorem after_spec (b : Bridge) (e : Step) :
    (b.after e).lastFailure = (b.refusal? e).or b.lastFailure ∧
      (b.arrives e).toNat + b.seat.isSome.toNat =
        (b.departs e).toNat + (b.after e).seat.isSome.toNat := by
  cases e with
  | told host n =>
    rcases b.tell_eq (·.take host n) with ⟨k, served⟩ | idle
    · simp [after, served, serve_lastFailure, serve_seat, refusal?, arrives, departs]
    · simp [after, idle, refusal?, arrives, departs]
  | used k f => simp [after, serve_lastFailure, serve_seat, refusal?, arrives, departs]
  | brought s =>
    by_cases full : b.seat.isSome
    · simp [after, install_of_full full, full, refusal?, arrives, departs, Except.toOption]
    · have vacant : b.seat = none := Option.not_isSome_iff_eq_none.mp full
      simp [after, install_of_vacant vacant, vacant, refusal?, arrives, departs, Except.toOption,
        seated]
  | asked host r =>
    cases r with
    | start settings =>
      rcases b.answer_start host settings with ⟨s, _, vacant, unrefused, answered⟩ |
        ⟨f, _, refused, answered⟩
      · simp [after, answered, unrefused, vacant, arrives, departs, seated]
      · simp [after, answered, refused, arrives, departs]
    | install settings services =>
      rcases b.answer_install host settings services with ⟨vacant, answered⟩ | ⟨full, answered⟩
      · simp [after, answered, vacant, refusal?, arrives, departs, seated]
      · simp [after, answered, full, refusal?, arrives, departs]
    | remove | stop =>
      cases seat : b.seat <;> simp [after, answer, vacate, refusal?, arrives, departs, seat]
    | lastFailure => simp [after, answer, refusal?, arrives, departs]

theorem replay_lastFailure (b : Bridge) (past : List Step) :
    (b.replay past).lastFailure = (b.refusals past).getLast?.or b.lastFailure := by
  induction past generalizing b with
  | nil => rfl
  | cons e past ih =>
    rw [replay_cons, ih, (b.after_spec e).1, refusals, List.getLast?_append]
    cases (b.after e).refusals past |>.getLast? <;> cases b.refusal? e <;> rfl

/-- Settings in text form say one thing. -/
theorem Reads.unique {settings : Option Bytes} {s t : Settings} (reads : Reads settings s)
    (reads' : Reads settings t) : s = t := by
  cases reads with
  | default =>
    cases reads'
    rfl
  | text unicode read =>
    cases reads' with
    | text unicode' read' =>
      cases unicode.symm.trans unicode'
      cases read.symm.trans read'
      rfl

/-- A failure outlasts the monitor it was about. -/
example (h : Host) :
    (({} : Bridge).replay
      [.asked h (.start none), .asked h (.start none), .asked h .stop]).lastFailure =
      some .occupied := rfl

/-- Steps that lead from one bridge to another. -/
def Leads (b d : Bridge) : Prop := ∃ past, d = b.replay past

namespace Leads

variable {b c d : Bridge}

theorem refl (b : Bridge) : b.Leads b := ⟨[], rfl⟩

theorem head (e : Step) (rest : (b.after e).Leads d) : b.Leads d := by
  obtain ⟨past, led⟩ := rest
  exact ⟨e :: past, led⟩

theorem trans (first : b.Leads c) (rest : c.Leads d) : b.Leads d := by
  obtain ⟨past, rfl⟩ := first
  obtain ⟨later, rfl⟩ := rest
  exact ⟨past ++ later, (b.replay_append past later).symm⟩

end Leads

/-- Whatever a program does on a bridge is a number of steps, one after the other. By induction on
the program: a call is left with the monitor it was entered with, in charge or not. -/
theorem leads_run {ν : Type} (p : Program Request Reply ν) (b : Bridge) (h : Host) :
    b.Leads (p.run b h).desk := by
  induction p generalizing b h with
  | done | panic => exact .refl b
  | note n next ih => exact ih b h
  | change f next ih => exact ih b (f h)
  | inspect next ih => exact ih _ _ b h
  | tell n next ih => exact (ih _ h).head (.told h n)
  | request r next ih => exact (ih _ _ h).head (.asked h r)
  | guarded body next ihb ihn => exact (ihb b h).trans (ihn _ _ _)
  | raise view index fault next ih =>
    rw [Program.run]
    split
    · exact ih none b h
    · rename_i k s _
      exact (ih _ _ h).head (.used k fun s => (s.hear h view index fault).2)
  | release view address caller body next ihb ihn =>
    rw [Program.run]
    split
    · exact ihn none b h
    · rename_i k s _
      dsimp only
      refine .head (.used k (·.checkRelease h view address caller)) ?_
      split
      · exact ihb _ h
      · exact (ihb _ h).trans (ihn _ _ _)
  | enter view index body next ihb ihn =>
    rw [Program.run]
    split
    · exact ihn none b h
    · rename_i k s _
      dsimp only
      refine .head (.used k fun s => (s.enterEntry h view index, [])) ?_
      split
      · exact (ihb _ h).trans (.head (.used k fun s => (s.abandon _, [])) (.refl _))
      · exact (ihb _ h).trans (.head (.used k (·.leaveEntry _ view index _ _)) (ihn _ _ _))
  | native view index body next ihb ihn =>
    rw [Program.run]
    split
    · exact ihn none b h
    · rename_i k s _
      dsimp only
      refine .head (.used k fun s => (s.enterNative h view index, [])) ?_
      split
      · exact .head (.used k fun s => (s.leaveNative _ _, [])) (ihn _ _ h)
      · split
        · exact (ihb _ _ h).trans (.head (.used k fun s => (s.abandon _, [])) (.refl _))
        · exact (ihb _ _ h).trans (.head (.used k fun s => (s.leaveNative _ _, [])) (ihn _ _ _))

end Bridge

end Postmortem
