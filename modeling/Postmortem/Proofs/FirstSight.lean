import Mathlib.Data.Set.Card
import Postmortem.Proofs.Course
import Postmortem.Proofs.Findings
import Postmortem.Proofs.SymbolNormalForm

/-!
# What a monitor knows of a machine

A monitor finds out about a machine when it first sees it and keeps that until the machine is
destroyed, whatever becomes of the machine's views and of the files. So what it knows is told by its
deeds so far.

* `Monitor.Event.Sees`, `Monitor.Event.Destroys`: the deeds that count.
* `Monitor.Tracked`, `Monitor.FirstSeen`: a machine was seen and not destroyed since, and when that
  was first so.
* `Monitor.Knows`: what is known, and from which view and which files it was found out.
* `Monitor.knows_replay`: a machine is known exactly if it is tracked, by what was found out when it
  was first seen.
* `Program.first_sight_wins`: it is so at every place of every run.
-/

namespace Postmortem

namespace Registry

variable (r : Registry) (files : FileTree) (view : Nat) (m : Machine)

theorem get?_observe (v : Handle) :
    (r.observe files view m).get? v =
      (r.get? v).or (if m.handle = v then some (r.build files view m) else none) := by
  cases known : r.contains m.handle with
  | true =>
    rw [observe_of_contains known]
    by_cases hv : m.handle = v
    · subst hv
      obtain ⟨i, found⟩ := Option.isSome_iff_exists.mp known
      simp [found]
    · simp [hv]
  | false =>
    by_cases hv : m.handle = v
    · subst hv
      have unknown : r.get? m.handle = none := by simpa [contains] using known
      rw [get?_observe_of_not_contains known, unknown]
      simp
    · have other : (v == m.handle) = false := by simp [Ne.symm hv]
      simp [observe, known, get?, List.lookup_cons, other, hv]

@[simp] theorem locator_observe : (r.observe files view m).locator = r.locator := by
  unfold observe
  split <;> rfl

@[simp] theorem source_observe : (r.observe files view m).source = r.source := by
  unfold observe
  split <;> rfl

/-- No machine has two entries. -/
def Single : Prop := (r.entries.map (·.1)).Nodup

theorem mem_keys_iff (v : Handle) : v ∈ r.entries.map (·.1) ↔ r.get? v ≠ none := by
  rw [get?, ne_eq, List.lookup_eq_none_iff]
  simp only [List.mem_map]
  grind

variable {r}

theorem Single.observe (single : r.Single) : (r.observe files view m).Single := by
  unfold Registry.observe
  split
  · exact single
  · rename_i unknown
    have absent : m.handle ∉ r.entries.map (·.1) := by
      rw [mem_keys_iff]
      simpa [contains] using unknown
    exact List.nodup_cons.mpr ⟨absent, single⟩

theorem Single.erase (single : r.Single) (v : Handle) : (r.erase v).Single :=
  List.Sublist.nodup (List.filter_sublist.map _) single

theorem Single.size_eq (single : r.Single) : r.size = {v | r.get? v ≠ none}.ncard := by
  have keys : {v | r.get? v ≠ none} = ((r.entries.map (·.1)).toFinset : Set Handle) := by
    ext v
    simp [← mem_keys_iff]
  rw [keys, Set.ncard_coe_finset, List.toFinset_card_of_nodup single, List.length_map, size]

end Registry

namespace Monitor

/-- The view through which a deed looks at a machine, which it then knows if it did not before. -/
def Deed.view? : Deed → Option Nat
  | .took (.created view) => some view
  | .heard view _ _ => some view
  | .checkedRelease view _ _ => some view
  | .enteredEntry view _ => some view
  | .enteredNative view _ => some view
  | _ => none

namespace Event

def Sees (e : Event) (v : Handle) : Prop :=
  ∃ view, e.deed.view? = some view ∧ (e.host.machine view).handle = v

def Destroys (e : Event) (v : Handle) : Prop := e.deed = .took (.destroyed v)

theorem Destroys.not_sees {e : Event} {v : Handle} (h : e.Destroys v) : ¬ e.Sees v := by
  rintro ⟨view, seen, _⟩
  rw [h] at seen
  cases seen

end Event

/-- Some deed was so, given those before it, and the machine has not been destroyed since. -/
def Since (v : Handle) (so : List Event → Event → Prop) (past : List Event) : Prop :=
  ∃ before e after, past = before ++ e :: after ∧ so before e ∧ ∀ x ∈ after, ¬ x.Destroys v

/-- The machine was seen and has not been destroyed since. -/
def Tracked (past : List Event) (v : Handle) : Prop := Since v (fun _ e => e.Sees v) past

/-- The machine has been tracked since it was seen through this view of the host, and was not
tracked before that. -/
def FirstSeen (past : List Event) (v : Handle) (view : Nat) (host : Host) : Prop :=
  Since v (fun before e => e.deed.view? = some view ∧ e.host = host ∧
    (host.machine view).handle = v ∧ ¬ Tracked before v) past

section Since

variable {v : Handle} {so : List Event → Event → Prop} {past later : List Event} {e : Event}

theorem not_since_nil : ¬ Since v so [] := by
  rintro ⟨before, e, after, split, _⟩
  simp at split

theorem since_concat : Since v so (past ++ [e]) ↔ so past e ∨ Since v so past ∧ ¬ e.Destroys v := by
  constructor
  · rintro ⟨before, x, after, split, here, kept⟩
    rcases List.eq_nil_or_concat after with rfl | ⟨after, y, rfl⟩
    · obtain ⟨rfl, last⟩ := List.append_inj' split rfl
      cases last
      exact .inl here
    · rw [List.concat_eq_append, ← List.cons_append, ← List.append_assoc] at split
      obtain ⟨rfl, last⟩ := List.append_inj' split rfl
      cases last
      simp only [List.concat_eq_append, List.forall_mem_append, List.forall_mem_singleton] at kept
      exact .inr ⟨⟨before, x, after, rfl, here, kept.1⟩, kept.2⟩
  · rintro (here | ⟨⟨before, x, after, rfl, here, kept⟩, spared⟩)
    · exact ⟨past, e, [], rfl, here, by simp⟩
    · refine ⟨before, x, after ++ [e], by simp, here, ?_⟩
      rw [List.forall_mem_append, List.forall_mem_singleton]
      exact ⟨kept, spared⟩

theorem Since.append (since : Since v so past) (spared : ∀ x ∈ later, ¬ x.Destroys v) :
    Since v so (past ++ later) := by
  obtain ⟨before, e, after, rfl, here, kept⟩ := since
  refine ⟨before, e, after ++ later, by simp, here, ?_⟩
  rw [List.forall_mem_append]
  exact ⟨kept, spared⟩

theorem FirstSeen.tracked {view : Nat} {host : Host} (first : FirstSeen past v view host) :
    Tracked past v := by
  obtain ⟨before, e, after, split, ⟨seen, rfl, own, _⟩, kept⟩ := first
  exact ⟨before, e, after, split, ⟨view, seen, own⟩, kept⟩

theorem tracked_concat :
    Tracked (past ++ [e]) v ↔ e.Sees v ∨ Tracked past v ∧ ¬ e.Destroys v := since_concat

variable {view : Nat} {host : Host}

theorem firstSeen_concat : FirstSeen (past ++ [e]) v view host ↔
    (e.deed.view? = some view ∧ e.host = host ∧ (host.machine view).handle = v ∧
      ¬ Tracked past v) ∨ FirstSeen past v view host ∧ ¬ e.Destroys v := since_concat

/-- A machine that is tracked, if a deed sees it at all, is not first seen by that deed. -/
theorem firstSeen_concat_of_tracked (tracked : e.Sees v → Tracked past v) :
    FirstSeen (past ++ [e]) v view host ↔ FirstSeen past v view host ∧ ¬ e.Destroys v := by
  rw [firstSeen_concat]
  constructor
  · rintro (⟨seen, rfl, own, untracked⟩ | later)
    · exact absurd (tracked ⟨view, seen, own⟩) untracked
    · exact later
  · exact .inr

theorem firstSeen_concat_of_not_tracked (untracked : ¬ Tracked past v) :
    FirstSeen (past ++ [e]) v view host ↔
      e.deed.view? = some view ∧ e.host = host ∧ (host.machine view).handle = v := by
  rw [firstSeen_concat]
  constructor
  · rintro (⟨seen, here, own, _⟩ | ⟨first, _⟩)
    · exact ⟨seen, here, own⟩
    · exact absurd first.tracked untracked
  · rintro ⟨seen, here, own⟩
    exact .inl ⟨seen, here, own, untracked⟩

end Since

/-! ## One deed -/

section Deed

variable (s : Monitor) (host : Host)

theorem registry_conclude (view : Nat) (index : Int32) (outcome : Outcome) :
    (s.conclude host view index outcome).1.registry = s.registry := by
  cases outcome with
  | returned value => rfl
  | failed fault => cases h : s.judged <;> simp [conclude, judge, h]

/-- A deed that looks at a machine has the registry observe it, and does no more to the registry. -/
theorem registry_perform_of_view {d : Deed} {view : Nat} (seen : d.view? = some view) :
    (s.perform host d).registry = s.registry.observe host.files view (host.machine view) := by
  cases d with
  | took n => cases n <;> cases seen; rfl
  | heard view index fault =>
    cases seen
    cases h : s.judged <;> simp [perform, hear, judge, observe, h]
  | checkedRelease view address caller =>
    cases seen
    simp only [perform, checkRelease]
    split <;> rfl
  | enteredEntry view index | enteredNative view index =>
    cases seen
    rfl
  | leftEntry | leftNative | abandoned => cases seen

theorem registry_perform_of_unseen {d : Deed} (unseen : d.view? = none)
    (spared : ∀ v, d ≠ .took (.destroyed v)) : (s.perform host d).registry = s.registry := by
  cases d with
  | took n =>
    cases n with
    | created view => cases unseen
    | destroyed v => exact absurd rfl (spared v)
    | _ => rfl
  | heard | checkedRelease | enteredEntry | enteredNative => cases unseen
  | leftEntry view index g outcome => exact registry_conclude s host view index outcome
  | leftNative g outcome => cases outcome <;> rfl
  | abandoned g => rfl

variable {s host}

theorem instance?_perform_of_sees {d : Deed} {view : Nat} (seen : d.view? = some view) :
    (s.perform host d).instance? (host.machine view).handle =
      some ((s.instance? (host.machine view).handle).getD
        (s.registry.build host.files view (host.machine view))) := by
  rw [instance?, registry_perform_of_view s host seen, Registry.get?_observe]
  cases h : s.registry.get? (host.machine view).handle <;> simp [instance?, h]

theorem instance?_perform_of_destroys {v : Handle} :
    (s.perform host (.took (.destroyed v))).instance? v = none := by
  simp [instance?, perform, take, Registry.get?_erase]

/-- A deed that neither sees nor destroys a machine leaves what is known of it. -/
theorem instance?_perform_of_neither {d : Deed} {v : Handle} (unseen : ¬ Event.Sees ⟨d, host⟩ v)
    (spared : ¬ Event.Destroys ⟨d, host⟩ v) : (s.perform host d).instance? v = s.instance? v := by
  cases seen : d.view? with
  | some view =>
    have other : (host.machine view).handle ≠ v := fun own => unseen ⟨view, seen, own⟩
    rw [instance?, registry_perform_of_view s host seen, Registry.get?_observe]
    simp [other, instance?]
  | none =>
    by_cases gone : ∃ w, d = .took (.destroyed w)
    · obtain ⟨w, rfl⟩ := gone
      have other : v ≠ w := by
        rintro rfl
        exact spared rfl
      simp [instance?, perform, take, Registry.get?_erase, other]
    · rw [instance?, registry_perform_of_unseen s host seen (by simpa using gone), instance?]

/-- What observing and erasing keep of a registry, every deed keeps. -/
theorem registry_perform_keeps {P : Registry → Prop}
    (observed : ∀ r files view m, P r → P (r.observe files view m))
    (erased : ∀ r v, P r → P (r.erase v)) (d : Deed) (before : P s.registry) :
    P (s.perform host d).registry := by
  cases seen : d.view? with
  | some view =>
    rw [registry_perform_of_view s host seen]
    exact observed _ _ _ _ before
  | none =>
    by_cases gone : ∃ w, d = .took (.destroyed w)
    · obtain ⟨w, rfl⟩ := gone
      exact erased _ w before
    · rwa [registry_perform_of_unseen s host seen (by simpa using gone)]

end Deed

/-! ## All deeds -/

theorem registry_replay_keeps {P : Registry → Prop}
    (observed : ∀ r files view m, P r → P (r.observe files view m))
    (erased : ∀ r v, P r → P (r.erase v)) (past : List Event) {s : Monitor}
    (before : P s.registry) : P (s.replay past).registry := by
  induction past generalizing s with
  | nil => exact before
  | cons e past ih => exact ih (registry_perform_keeps observed erased e.deed before)

theorem single_replay {s : Monitor} (single : s.registry.Single) (past : List Event) :
    (s.replay past).registry.Single :=
  registry_replay_keeps (fun _ files view m kept => kept.observe files view m)
    (fun _ v kept => kept.erase v) past single

/-- Where scripts and symbols are looked for never changes. -/
theorem build_replay (s : Monitor) (past : List Event) (files : FileTree) (view : Nat)
    (m : Machine) :
    (s.replay past).registry.build files view m = s.registry.build files view m := by
  have kept : (s.replay past).registry.locator = s.registry.locator ∧
      (s.replay past).registry.source = s.registry.source :=
    registry_replay_keeps (P := fun r => r.locator = s.registry.locator ∧
      r.source = s.registry.source) (by simp) (fun _ _ kept => kept) past ⟨rfl, rfl⟩
  have symbols : (s.replay past).registry.symbols? files m = s.registry.symbols? files m := by
    funext script
    simp [Registry.symbols?, kept]
  simp [Registry.build, symbols, kept]

/-- What a monitor knows after its deeds, if it looks for scripts and symbols in these places. -/
structure Knows (l : Locator) (source : SymbolSource) (past : List Event) (s : Monitor) : Prop where
  unknown : ∀ v, s.instance? v = none ↔ ¬ Tracked past v
  /-- A machine is known by what was found out when it was first seen. -/
  known : ∀ v i, s.instance? v = some i ↔ ∃ view host, FirstSeen past v view host ∧
    i.Found l source host.files view (host.machine view)
  size : s.registry.size = {v | Tracked past v}.ncard

/-- By induction on the deeds, the last one taken off. -/
theorem instance?_replay (start : Monitor) (fresh : start.registry.entries = [])
    (past : List Event) (v : Handle) :
    ((start.replay past).instance? v = none ↔ ¬ Tracked past v) ∧
    ∀ i, (start.replay past).instance? v = some i ↔ ∃ view host, FirstSeen past v view host ∧
      i = start.registry.build host.files view (host.machine view) := by
  induction past using List.reverseRecOn with
  | nil =>
    have none : start.instance? v = none := by simp [instance?, Registry.get?, fresh]
    simp [none, Tracked, FirstSeen, not_since_nil]
  | append_singleton past e ih =>
    obtain ⟨unknown, known⟩ := ih
    rw [replay_append, replay_cons, replay_nil, tracked_concat]
    by_cases sees : e.Sees v
    · have spared : ¬ e.Destroys v := fun destroys => destroys.not_sees sees
      obtain ⟨view, seen, rfl⟩ := sees
      rw [instance?_perform_of_sees seen, build_replay]
      refine ⟨by simp [Event.Sees, seen], ?_⟩
      intro i
      by_cases tracked : Tracked past (e.host.machine view).handle
      · -- What was found out before stays.
        obtain ⟨j, before⟩ := Option.ne_none_iff_exists'.mp fun none => unknown.mp none tracked
        simp only [firstSeen_concat_of_tracked fun _ => tracked, spared, not_false_eq_true,
          and_true, ← known, before, Option.getD_some]
      · rw [unknown.mpr tracked, Option.getD_none]
        simp only [firstSeen_concat_of_not_tracked tracked]
        constructor
        · rintro ⟨rfl⟩
          exact ⟨view, e.host, ⟨seen, rfl, rfl⟩, rfl⟩
        · rintro ⟨w, host, ⟨seen', rfl, _⟩, rfl⟩
          rw [Option.some.inj (seen.symm.trans seen')]
    by_cases destroys : e.Destroys v
    · obtain ⟨d, host⟩ := e
      cases destroys
      rw [instance?_perform_of_destroys]
      simp [firstSeen_concat, Event.Sees, Event.Destroys, Deed.view?]
    · rw [instance?_perform_of_neither sees destroys]
      refine ⟨by simp [unknown, sees, destroys], ?_⟩
      intro i
      simp only [firstSeen_concat_of_tracked fun seen => absurd seen sees, destroys,
        not_false_eq_true, and_true, known]

/-- What a monitor knows after its deeds, if it knew nothing before them. -/
theorem knows_replay (start : Monitor) (fresh : start.registry.entries = []) (past : List Event) :
    Knows start.registry.locator start.registry.source past (start.replay past) where
  unknown v := (instance?_replay start fresh past v).1
  known v i := by
    simp only [Registry.found_iff]
    exact (instance?_replay start fresh past v).2 i
  size := by
    have single : start.registry.Single := by simp [Registry.Single, fresh]
    rw [(single_replay single past).size_eq]
    congr 1
    ext v
    exact not_iff_comm.mp (instance?_replay start fresh past v).1.symm

end Monitor

namespace Program

open Monitor

variable {ν : Type}

/-- A native is run by the handler that its machine had when it was first seen. -/
theorem handled_of_knows {l : Locator} {source : SymbolSource} {s : Monitor} {past : List Event}
    {h : Host} {view : Nat} {index : Int32} (body : String → Lone ν)
    (knows : Knows l source (past ++ [⟨.enteredNative view index, h⟩])
      (s.enterNative h view index)) :
    ∃ seen host,
      FirstSeen (past ++ [⟨.enteredNative view index, h⟩]) (h.machine view).handle seen host ∧
      handled (s.enterNative h view index) h view body =
        (host.machine seen).handler.elim (.done (.failed .noCallback)) body := by
  have tracked : Tracked (past ++ [⟨.enteredNative view index, h⟩]) (h.machine view).handle :=
    tracked_concat.mpr (.inl ⟨view, rfl, rfl⟩)
  obtain ⟨i, found⟩ := Option.ne_none_iff_exists'.mp fun none =>
    (knows.unknown (h.machine view).handle).mp none tracked
  obtain ⟨seen, host, first, findings⟩ := (knows.known (h.machine view).handle i).mp found
  refine ⟨seen, host, first, ?_⟩
  rw [handled, handler?, found, Option.bind_some, findings.handler]

/-- **First sight wins until a machine is destroyed.** At every place of every run, whatever became
of the host on the way there, a machine is known exactly if it was seen since it was last destroyed,
by what its view and the files showed when that was first so: the first file with its code, the
symbols of that script, and its handler. It stays known just so at every later place until it is
destroyed. And its natives are run by the handler it had then. -/
theorem first_sight_wins (p : Lone ν) (settings : Settings) (services : Services)
    (env : Environment) (host : Host) {past : List Event} {w : Stand ν} {s : Monitor} {h : Host}
    (way : Reaches p (.start settings services env) host past w s h) :
    Knows (.ofSettings settings env) services.symbols past s ∧
    (∀ later w' s' h', Reaches p (.start settings services env) host (past ++ later) w' s' h' →
      ∀ v i, s.instance? v = some i → (∀ e ∈ later, ¬ e.Destroys v) → s'.instance? v = some i) ∧
    ∀ view index body next, w = .before (.native view index body next) →
      ∃ seen host',
        FirstSeen (past ++ [⟨.enteredNative view index, h⟩]) (h.machine view).handle seen host' ∧
        Reaches p (.start settings services env) host (past ++ [⟨.enteredNative view index, h⟩])
          (.before ((host'.machine seen).handler.elim (.done (.failed .noCallback)) body))
          (s.enterNative h view index) h := by
  have knows {past : List Event} {w : Stand ν} {s : Monitor} {h : Host}
      (way : Reaches p (.start settings services env) host past w s h) :
      Knows (.ofSettings settings env) services.symbols past s :=
    way.replay ▸ knows_replay (.start settings services env) rfl past
  refine ⟨knows way, ?_, ?_⟩
  · intro later w' s' h' onward v i found spared
    obtain ⟨view, host', first, findings⟩ := ((knows way).known v i).mp found
    exact ((knows onward).known v i).mpr ⟨view, host', first.append spared, findings⟩
  · rintro view index body next rfl
    have onward := way.trans (.inNative view index (.here ..))
    obtain ⟨seen, host', first, same⟩ := handled_of_knows body (knows onward)
    rw [same] at onward
    exact ⟨seen, host', first, onward⟩

end Program

/-! ## A script that is relabelled -/

/-- Symbols that name one function. -/
def SymbolMap.lone (name : String) : SymbolMap := .ofRows [⟨name, 0, 64⟩] []

/-- A host whose machine has a script and a sidecar beside it. The handler of the machine and the
function that the sidecar lists have this name. -/
def Host.labelled (name : String) : Host where
  machine _ :=
    { Host.bare.machine 0 with
      image := ⟨⟨0, 1⟩, #[7]⟩
      debugInfo := true
      handler := some name }
  files := ⟨[(["g"], .directory), (["g", "a.amx"], .file #[7]),
    (["g", "a.sym.json"], .file (Text.octets (Document.write (SymbolMap.lone name))).toArray)]⟩

/-- What is found out about that machine. -/
def Instance.labelled (name : String) : Instance :=
  ⟨0, some "g/a.amx", some (SymbolMap.lone name).table, some name⟩

section

variable (name : String)

theorem FileTree.resolve?_labelled :
    (Host.labelled name).files.resolve? "g" = some ["g"] ∧
      (Host.labelled name).files.resolve? "g/a.amx" = some ["g", "a.amx"] ∧
      (Host.labelled name).files.resolve? "g/a.sym.json" = some ["g", "a.sym.json"] := by
  have way {p : Path} (relative : ¬ (p.isEmpty || p.startsWith "/")) :
      (Host.labelled name).files.resolve? p =
        (names p).foldlM (Host.labelled name).files.descend [] := if_neg relative
  have directory : names "g" = ["g"] := by decide +kernel
  have script : names "g/a.amx" = ["g", "a.amx"] := by decide +kernel
  have sidecar : names "g/a.sym.json" = ["g", "a.sym.json"] := by decide +kernel
  rw [way (by decide +kernel), way (by decide +kernel), way (by decide +kernel), directory, script,
    sidecar]
  exact ⟨rfl, rfl, rfl⟩

theorem FileTree.read?_labelled :
    (Host.labelled name).files.read? "g/a.amx" = some #[7] ∧
      (Host.labelled name).files.read? "g/a.sym.json" =
        some (Text.octets (Document.write (SymbolMap.lone name))).toArray := by
  obtain ⟨_, script, sidecar⟩ := resolve?_labelled name
  constructor
  · rw [read?, script]
    rfl
  · rw [read?, sidecar]
    rfl

/-- Where no variable is set, only the directories of the settings are searched. -/
theorem Locator.ofSettings_of_unset (s : Settings) :
    Locator.ofSettings s {} = { searchPaths := s.searchDirs } := by
  have unset : ({} : Environment).value? s.pathVariable = none := by
    rw [Environment.value?]
    split <;> rfl
  rw [ofSettings, Settings.searchPaths, Settings.environmentPaths, unset, List.append_nil]

theorem Locator.locate?_labelled :
    ({ searchPaths := ["g"] } : Locator).locate? (Host.labelled name).files
      ((Host.labelled name).machine 0).image = some "g/a.amx" := by
  let l : Locator := { searchPaths := ["g"] }
  let files := (Host.labelled name).files
  obtain ⟨directory, _, _⟩ := FileTree.resolve?_labelled name
  obtain ⟨read, _⟩ := FileTree.read?_labelled name
  have listed : files.list "g" = ["a.amx", "a.sym.json"] := by
    rw [FileTree.list, directory]
    rfl
  have sorted : (["a.amx", "a.sym.json"].mergeSort fun a b => decide (a ≤ b)) =
      ["a.amx", "a.sym.json"] := List.mergeSort_of_pairwise (by decide)
  have joined : ["a.amx", "a.sym.json"].map (Path.join "g") = ["g/a.amx", "g/a.sym.json"] := by
    decide +kernel
  have script : l.isScript files "g/a.amx" = true := by
    rw [isScript, read]
    decide +kernel
  have sidecar : l.isScript files "g/a.sym.json" = false := by
    have other : ((Path.extension? "g/a.sym.json").any fun e => foldCase e = foldCase l.ext) =
        false := by decide +kernel
    rw [isScript, other, Bool.and_false]
  have candidates : l.candidates files = ["g/a.amx"] := by
    rw [Locator.candidates, List.flatMap_singleton, candidatesIn, listed, sorted, joined,
      List.filter_cons_of_pos script, List.filter_cons_of_neg (by rw [sidecar]; decide),
      List.filter_nil]
  have image : ((Host.labelled name).machine 0).image = ⟨⟨0, 1⟩, #[7]⟩ := rfl
  have coded : (files.read? "g/a.amx").any fun bytes => Matches ⟨⟨0, 1⟩, #[7]⟩ bytes := by
    rw [read]
    decide
  rw [image, locate?, if_neg (by decide), candidates]
  exact List.find?_cons_of_pos coded

theorem Instance.found_labelled :
    (Instance.labelled name).Found { searchPaths := ["g"] } Services.system.symbols
      (Host.labelled name).files 0 ((Host.labelled name).machine 0) := by
  let r : Registry := ⟨{ searchPaths := ["g"] }, Services.system.symbols, []⟩
  let m := (Host.labelled name).machine 0
  have beside : Path.withExtension "g/a.amx" SymbolSource.sidecarExtension = "g/a.sym.json" := by
    decide +kernel
  have read := (FileTree.read?_labelled name).2
  rw [← beside] at read
  have supplies : SymbolSource.Supplies (Host.labelled name).files "g/a.amx"
      Services.system.symbols (SymbolMap.lone name).table :=
    .sidecar read rfl (SymbolMap.read_write _)
  have symbols : r.symbols? (Host.labelled name).files m "g/a.amx" =
      some (SymbolMap.lone name).table := (r.symbols?_eq_some_iff _ m).mpr ⟨rfl, supplies⟩
  apply (Registry.found_iff (r := r)).mpr
  rw [Registry.build, Locator.locate?_labelled, Option.bind_some, symbols]
  rfl

end

namespace Program

open Monitor

/-- A host that relabels its machine before a native, in which the machine is destroyed and seen
again. -/
def relabelled : Lone String :=
  .enter 0 0
    (.change (fun _ => .labelled "later") <|
      .native 0 3
        (fun handler => .note handler <| .tell (.destroyed 1) <| .tell (.created 0) <|
          .done (.returned 7))
        fun outcome => .done (outcome.getD (.returned 0)))
    fun _ => .done (.returned 0)

/-- What was found out at first sight stays through the native, whatever becomes of the sidecar and
of the handler. The new sidecar and the new handler are found when the machine is seen again. -/
theorem first_sight_wins_relabelled :
    let settings : Settings := { searchDirs := ["g"] }
    let start : Monitor := .start settings .system {}
    let early := Host.labelled "early"
    let later := Host.labelled "later"
    let called : List Event := [⟨.enteredEntry 0 0, early⟩]
    let dispatched := called ++ [⟨.enteredNative 0 3, later⟩]
    let destroyed := dispatched ++ [⟨.took (.destroyed 1), later⟩]
    let again := destroyed ++ [⟨.took (.created 0), later⟩]
    let s := start.enterEntry early 0 0
    let t := s.enterNative later 0 3
    let u := ((t.take later (.destroyed 1)).1.take later (.created 0)).1
    let rest : Lone String := .tell (.destroyed 1) <| .tell (.created 0) <| .done (.returned 7)
    let script : Lone String :=
      .native 0 3 (.note · rest) fun outcome => .done (outcome.getD (.returned 0))
    Reaches relabelled start early called (.before script) s later ∧
      s.instance? 1 = some (.labelled "early") ∧
      Reaches relabelled start early dispatched (.before (.note "early" rest)) t later ∧
      t.instance? 1 = some (.labelled "early") ∧
      Reaches relabelled start early again (.before (.done (.returned 7))) u later ∧
      u.instance? 1 = some (.labelled "later") ∧
      (Instance.labelled "early").name = "a.amx" ∧
      (SymbolMap.lone "early").table.function? 0 = some "early" ∧
      (SymbolMap.lone "later").table.function? 0 = some "later" := by
  intro settings start early later called dispatched destroyed again s t u rest script
  have locator := Locator.ofSettings_of_unset settings
  have way : Reaches relabelled start early called (.before script) s later :=
    .inEntry 0 0 (.change _ (.here ..))
  obtain ⟨knows, stays, runs⟩ := first_sight_wins relabelled settings .system {} early way
  have unseen : ¬ Tracked [] 1 := not_since_nil
  have first : FirstSeen called 1 0 early :=
    (firstSeen_concat_of_not_tracked unseen).mpr ⟨rfl, rfl, rfl⟩
  have found : s.instance? 1 = some (.labelled "early") :=
    (knows.known 1 _).mpr ⟨0, early, first, locator ▸ Instance.found_labelled "early"⟩
  obtain ⟨_, _, _, onward⟩ := runs 0 3 _ _ rfl
  have kept : t.instance? 1 = some (.labelled "early") :=
    stays _ _ _ _ onward 1 _ found (by simp [Event.Destroys])
  have handler : t.handler? 1 = some "early" := by
    rw [handler?, kept]
    rfl
  have inside : handled t later 0 (.note · rest) = .note "early" rest := by
    have own : (later.machine 0).handle = 1 := rfl
    rw [handled, own, handler]
    rfl
  have inNative : Reaches relabelled start early dispatched (.before (.note "early" rest)) t later :=
    way.trans (.inNative 0 3 (inside ▸ .here ..))
  have ended : Reaches relabelled start early again (.before (.done (.returned 7))) u later :=
    inNative.trans (.note _ (.tell _ (.tell _ (.here ..))))
  have untracked : ¬ Tracked destroyed 1 := by
    rw [tracked_concat]
    rintro (⟨_, seen, _⟩ | ⟨_, spared⟩)
    · cases seen
    · exact spared rfl
  have seenAgain : FirstSeen again 1 0 later :=
    (firstSeen_concat_of_not_tracked untracked).mpr ⟨rfl, rfl, rfl⟩
  have renewed : u.instance? 1 = some (.labelled "later") :=
    ((first_sight_wins relabelled settings .system {} early ended).1.known 1 _).mpr
      ⟨0, later, seenAgain, locator ▸ Instance.found_labelled "later"⟩
  exact ⟨way, found, inNative, kept, ended, renewed, by decide +kernel, rfl, rfl⟩

end Program

end Postmortem
