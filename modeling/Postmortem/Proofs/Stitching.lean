import Mathlib.Data.List.TakeWhile
import Postmortem.Backtrace

/-!
# Backtraces of nested runs

Entry points that the host runs on one machine, each while the one before it is in a native. The
calls and the memory they leave are given as the machine lays them out, and the backtrace shows
what they were.

* `Machine.Nested` is the layout, `nestedCalls` the calls that are open.
* `Backtrace.ofCalls_nestedCalls`: the backtrace shows every activation and every native, in order.
-/

namespace Postmortem

/-- A script function that was called and has not returned. -/
structure Activation where
  /-- Where its frame lies. -/
  base : Cell
  /-- Where it goes on. -/
  resume : Cell
  /-- Where it starts. -/
  function : Cell
  deriving DecidableEq, Repr

/-- Where a machine stands: the instruction pointer and the frame pointer. -/
structure Place where
  ip : Cell
  fp : Cell
  deriving DecidableEq, Repr

/-- One run of an entry point. -/
structure ScriptRun where
  index : Int32
  /-- Innermost first. There are none before the entry point has made its own frame. -/
  frames : List Activation
  /-- The natives that are open in it, oldest first. -/
  natives : List Int32
  /-- Where the run has come to. -/
  place : Place
  deriving DecidableEq, Repr

/-- The open calls of nested runs, outermost run first, on a machine found at `found`. -/
def nestedCalls (owner : Handle) : Place → List ScriptRun → List Call
  | _, [] => []
  | found, r :: inner =>
    .entry owner r.index found.ip found.fp :: r.natives.map (.native owner) ++
      nestedCalls owner r.place inner

/-- Where the machine stands in the innermost run. -/
def innermostPlace : Place → List ScriptRun → Place
  | found, [] => found
  | _, r :: inner => innermostPlace r.place inner

/-! ## How a machine lays them out -/

namespace Machine

/-- The call before `resume` names the function. -/
def Called (m : Machine) (resume function : Cell) : Prop :=
  8 ≤ resume ∧ m.image.codeCell (resume - 4) = some function ∧
    0 < function ∧ function % 4 = 0 ∧ (m.image.codeCell function).isSome

instance (m : Machine) (resume function : Cell) : Decidable (m.Called resume function) :=
  inferInstanceAs (Decidable (_ ∧ _))

theorem Called.resume_ne_zero {m : Machine} {resume function : Cell}
    (called : m.Called resume function) : resume ≠ 0 := by
  intro zero
  have room := called.1
  rw [zero] at room
  exact absurd room (by decide)

/-- The frame lies in the stack, and below the run that was interrupted, if there is one. -/
def Holds (m : Machine) (bound base : Cell) : Prop :=
  0 < base ∧ m.registers.stack.HoldsFrame base ∧ (bound ≠ 0 → base < bound)

instance (m : Machine) (bound base : Cell) : Decidable (m.Holds bound base) :=
  inferInstanceAs (Decidable (_ ∧ _))

theorem Holds.ne_zero {m : Machine} {bound base : Cell} (held : m.Holds bound base) :
    base ≠ 0 := by
  intro zero
  have positive := held.1
  rw [zero] at positive
  exact Int32.lt_irrefl positive

/-- The frame keeps no return address, or no caller. A return address without a caller names no
function but the entry point. -/
def Rooted (m : Machine) (entry : Option Address) (base : Cell) : Prop :=
  m.image.dataCell (base + 4) = some 0 ∨
    m.image.dataCell base = some 0 ∧
      ∀ resume function, m.image.dataCell (base + 4) = some resume → m.Called resume function →
        entry = some function.toUInt32

/-- The frames of one run, innermost first, below `bound`. -/
inductive Stacked (m : Machine) (bound : Cell) (entry : Option Address) : List Activation → Prop
  | first (f : Activation) (held : m.Holds bound f.base) (rooted : m.Rooted entry f.base) :
      Stacked m bound entry [f]
  | call (f g : Activation) (outer : List Activation) (held : m.Holds bound f.base)
      (above : f.base < g.base) (base : m.image.dataCell f.base = some g.base)
      (resume : m.image.dataCell (f.base + 4) = some g.resume)
      (called : m.Called g.resume f.function)
      (rest : Stacked m bound entry (g :: outer)) : Stacked m bound entry (f :: g :: outer)

theorem Stacked.held_head {m : Machine} {bound : Cell} {entry : Option Address} {f : Activation}
    {outer : List Activation} (stacked : m.Stacked bound entry (f :: outer)) :
    m.Holds bound f.base := by
  cases stacked <;> assumption

/-- A run that interrupted another one in the frame at `bound`, and has come to its place. Without
a frame of its own the frame pointer is still the other one's, or no frame at all. -/
def HasRun (m : Machine) (bound : Cell) (r : ScriptRun) : Prop :=
  match r.frames with
  | [] => r.place.fp = 0 ∨ ¬ m.registers.stack.HoldsFrame r.place.fp ∨
      (bound ≠ 0 ∧ bound ≤ r.place.fp)
  | f :: outer =>
    outer.length < Walk.limit ∧ m.Stacked bound (m.entryAddress? r.index) (f :: outer) ∧
      r.place = ⟨f.resume, f.base⟩

/-- Runs on a machine whose frame pointer was `bound`, outermost first, each of which interrupted
the one before it. -/
def Nested (m : Machine) : Cell → List ScriptRun → Prop
  | _, [] => True
  | bound, r :: inner => m.HasRun bound r ∧ m.Nested r.place.fp inner

end Machine

/-! ## What they should look like -/

namespace Activation

def frame (f : Activation) (symbols : Option SymbolTable) (function : Option Address) : Frame where
  base := f.base
  resume := f.resume
  entry := symbols.elim function fun t => some (t.entry f.resume.toUInt32)
  symbol := symbols.bind (·.symbol? f.resume.toUInt32)

/-- The outermost activation is that of the entry point. -/
def shown (symbols : Option SymbolTable) (entry : Option Address) : List Activation → List Frame
  | [] => []
  | [f] => [f.frame symbols entry]
  | f :: g :: outer =>
    f.frame symbols (some f.function.toUInt32) :: shown symbols entry (g :: outer)

end Activation

namespace ScriptRun

def shownNatives (m : Machine) (modules : ModuleMap) (r : ScriptRun) : Backtrace :=
  (r.natives.reverse.filterMap fun index => (m.native? index).filter (·.address ≠ 0)).map
    fun n => .native n.name n.address (modules.name? n.address)

def shownFrames (m : Machine) (i : Instance) (r : ScriptRun) : Backtrace :=
  let entry := m.entryAddress? r.index
  let origin := if i.symbols.isNone ∧ i.name ≠ "" then some i.name else none
  let frames := match r.frames with
    | [] => [Frame.enteredAt r.place.fp entry i.symbols]
    | frames => Activation.shown i.symbols entry frames
  frames.map (.script · origin)

/-- Runs given outermost first, shown innermost first. -/
def shown (m : Machine) (i : Instance) (modules : ModuleMap) : List ScriptRun → Backtrace
  | [] => []
  | r :: inner => shown m i modules inner ++ (r.shownNatives m modules ++ r.shownFrames m i)

end ScriptRun

/-! ## One run -/

/-- The cell above the base of a frame does not leave the word. -/
theorem Span.plus?_of_holdsFrame {s : Span} {base : Cell} (held : s.HoldsFrame base) :
    Cell.plus? base Cell.width = some (base + 4) := by
  have low := base.le_toInt
  have high := s.high.toInt_lt
  have room : base.toInt + 2 * Cell.width ≤ s.high.toInt := held.2
  have width : (Cell.width : Int) = 4 := rfl
  have inside : -2147483648 ≤ base.toInt + 4 ∧ base.toInt + 4 ≤ 2147483647 := by omega
  rw [Cell.plus?, Cell.ofInt?, width, if_pos inside, Int32.ofInt_add, Int32.ofInt_toInt]
  rfl

namespace Walk

/-- The walk of one run that interrupted another in the frame at `bound`. -/
def ofRun (m : Machine) (bound : Cell) (symbols : Option SymbolTable) (place : Place) : Walk :=
  ((start m.image m.registers.stack place.ip place.fp).boundedBy bound).withSymbols symbols

section

variable {m : Machine} {bound : Cell} {symbols : Option SymbolTable} {place : Place}

@[simp] theorem image_ofRun : (ofRun m bound symbols place).image = m.image := by
  unfold ofRun boundedBy
  split <;> rfl

@[simp] theorem stack_ofRun : (ofRun m bound symbols place).stack = m.registers.stack := by
  unfold ofRun boundedBy
  split <;> rfl

theorem within_ofRun {base : Cell} :
    (ofRun m bound symbols place).Within base ↔ (bound ≠ 0 → base < bound) := by
  unfold ofRun boundedBy
  by_cases unbounded : bound = 0
  · simp [unbounded, Within, start, withSymbols]
  · simp [unbounded, Within, withSymbols]

theorem first_ofRun_of_holds (held : m.Holds bound place.fp) :
    (ofRun m bound symbols place).first = some (place.fp, place.ip) := by
  have found := held.ne_zero
  obtain ⟨_, inStack, below⟩ := held
  unfold ofRun boundedBy
  by_cases unbounded : bound = 0
  · simp [unbounded, start, withSymbols, found, inStack]
  · simp [unbounded, start, withSymbols, found, inStack, below unbounded]

theorem first_ofRun_eq_none
    (bare : place.fp = 0 ∨ ¬ m.registers.stack.HoldsFrame place.fp ∨
      (bound ≠ 0 ∧ bound ≤ place.fp)) :
    (ofRun m bound symbols place).first = none := by
  unfold ofRun boundedBy
  by_cases unbounded : bound = 0
  · rcases bare with zero | outside | ⟨bounded, _⟩
    · simp [unbounded, start, withSymbols, zero]
    · simp [unbounded, start, withSymbols, outside]
    · exact absurd unbounded bounded
  · rcases bare with zero | outside | ⟨_, beyond⟩
    · simp [unbounded, start, withSymbols, zero]
    · simp [unbounded, start, withSymbols, outside]
    · simp only [unbounded, if_false, start, withSymbols]
      split <;> simp [beyond]

theorem kept?_ofRun {base : Cell} (held : m.Holds bound base) :
    (ofRun m bound symbols place).kept? base = m.image.dataCell (base + 4) := by
  rw [kept?, Span.plus?_of_holdsFrame held.2.1, image_ofRun]
  rfl

theorem callee?_of_called {base resume function : Cell} (held : m.Holds bound base)
    (kept : m.image.dataCell (base + 4) = some resume) (called : m.Called resume function) :
    (ofRun m bound symbols place).callee? base = some function.toUInt32 := by
  obtain ⟨room, target, positive, aligned, inCode⟩ := called
  have far : ¬ resume < 8 := by simpa using room
  simp [callee?, kept?_ofRun held, kept, far, target, positive, aligned, inCode]

theorem called_of_callee? {base : Cell} {function : Address} (held : m.Holds bound base)
    (found : (ofRun m bound symbols place).callee? base = some function) :
    ∃ resume target, m.image.dataCell (base + 4) = some resume ∧ m.Called resume target ∧
      function = target.toUInt32 := by
  rw [callee?, kept?_ofRun held] at found
  cases kept : m.image.dataCell (base + 4) with
  | none => simp [kept] at found
  | some resume =>
    by_cases near : resume < 8
    · simp [kept, near] at found
    · cases named : m.image.codeCell (resume - 4) with
      | none => simp [kept, near, named] at found
      | some target =>
        simp only [kept, near, named, image_ofRun, Option.bind_eq_bind, Option.bind_some, if_false,
          Option.ite_none_right_eq_some, Option.some.injEq] at found
        obtain ⟨⟨positive, aligned, inCode⟩, rfl⟩ := found
        exact ⟨resume, target, rfl, ⟨by simpa using near, named, positive, aligned, inCode⟩, rfl⟩

theorem caller?_of_linked {f g : Activation} (held : m.Holds bound f.base)
    (outer : m.Holds bound g.base) (above : f.base < g.base)
    (base : m.image.dataCell f.base = some g.base)
    (resume : m.image.dataCell (f.base + 4) = some g.resume)
    (called : m.Called g.resume f.function) :
    (ofRun m bound symbols place).caller? f.base = some (g.base, g.resume) := by
  have within : (ofRun m bound symbols place).Within g.base := within_ofRun.mpr outer.2.2
  simp [caller?, kept?_ofRun held, base, resume, called.resume_ne_zero, outer.ne_zero, above,
    outer.2.1, within]

theorem caller?_of_rooted {entry : Option Address} {base : Cell} (held : m.Holds bound base)
    (rooted : m.Rooted entry base) : (ofRun m bound symbols place).caller? base = none := by
  rw [caller?, kept?_ofRun held, image_ofRun]
  rcases rooted with noReturn | ⟨noCaller, _⟩
  · cases m.image.dataCell base <;> simp [noReturn]
  · cases m.image.dataCell (base + 4) <;> simp [noCaller]

/-- A rooted frame shows no function but the entry point. -/
theorem callee?_of_rooted {entry : Option Address} {base : Cell} (held : m.Holds bound base)
    (rooted : m.Rooted entry base) :
    (ofRun m bound symbols place).callee? base = none ∨
      (ofRun m bound symbols place).callee? base = entry := by
  cases found : (ofRun m bound symbols place).callee? base with
  | none => exact .inl rfl
  | some function =>
    obtain ⟨resume, target, kept, called, rfl⟩ := called_of_callee? held found
    rcases rooted with noReturn | ⟨_, named⟩
    · have zero : resume = 0 := by simpa [noReturn] using kept.symm
      exact absurd zero called.resume_ne_zero
    · exact .inr (named resume target kept called).symm

theorem frame_ofRun (f : Activation) :
    (ofRun m bound symbols place).frame (f.base, f.resume) =
      f.frame symbols ((ofRun m bound symbols place).callee? f.base) := by
  cases symbols <;> rfl

/-- By induction on the layout: the kept bases lead from each frame to the next, and from the last
one nowhere. -/
theorem chain_of_stacked {entry : Option Address} {frames : List Activation}
    (stacked : m.Stacked bound entry frames) {n : Nat} (short : frames.length ≤ n) :
    (ofRun m bound symbols place).chain n (frames.head?.map fun f => (f.base, f.resume)) =
      frames.map fun f => (f.base, f.resume) := by
  induction stacked generalizing n with
  | first f held rooted =>
    obtain ⟨n, rfl⟩ := Nat.exists_eq_succ_of_ne_zero (Nat.ne_zero_of_lt short)
    simp [chain, caller?_of_rooted held rooted]
  | call f g outer held above base resume called rest ih =>
    obtain ⟨n, rfl⟩ := Nat.exists_eq_succ_of_ne_zero (Nat.ne_zero_of_lt short)
    have next : (ofRun m bound symbols place).caller? f.base = some (g.base, g.resume) :=
      caller?_of_linked held rest.held_head above base resume called
    have shorter : (g :: outer).length ≤ n := by simpa using short
    have walked := ih shorter
    simp only [List.head?_cons, Option.map_some, List.map_cons] at walked
    simp [chain, next, walked]

end

end Walk

namespace Backtrace

variable {m : Machine} {i : Instance} {modules : ModuleMap}

theorem closeRun_cons_cons (f g : Frame) (outer : List Frame) (fp : Cell) (entry : Option Address)
    (symbols : Option SymbolTable) :
    closeRun (f :: g :: outer) fp entry symbols = f :: closeRun (g :: outer) fp entry symbols := by
  unfold closeRun
  rw [List.getLast?_cons_cons]
  cases outermost : (g :: outer).getLast? with
  | none => simp at outermost
  | some last => simp only [List.dropLast_cons_cons, List.cons_append, apply_ite (f :: ·)]

/-- By induction on the layout. Each frame shows the function that was called to make it, and the
outermost one is given the entry point if it shows none. -/
theorem closeRun_of_stacked {bound : Cell} {entry : Option Address} {frames : List Activation}
    (stacked : m.Stacked bound entry frames) (symbols : Option SymbolTable) (place : Place) :
    closeRun
        ((frames.map fun f => (f.base, f.resume)).map (Walk.ofRun m bound symbols place).frame)
        place.fp entry symbols =
      Activation.shown symbols entry frames := by
  induction stacked with
  | first f held rooted =>
    have callee : (Walk.ofRun m bound symbols place).callee? f.base = none ∨
        (Walk.ofRun m bound symbols place).callee? f.base = entry :=
      Walk.callee?_of_rooted held rooted
    simp only [List.map_cons, List.map_nil, Walk.frame_ofRun, Activation.shown]
    cases symbols with
    | some table => simp [closeRun, Activation.frame]
    | none =>
      rcases callee with unnamed | named
      · simp [closeRun, Activation.frame, unnamed]
      · rw [named]
        cases entry <;> simp [closeRun, Activation.frame]
  | call f g outer held above base resume called rest ih =>
    have callee : (Walk.ofRun m bound symbols place).callee? f.base =
        some f.function.toUInt32 :=
      Walk.callee?_of_called held resume called
    simp only [List.map_cons] at ih
    rw [Walk.frame_ofRun] at ih
    simp only [List.map_cons, closeRun_cons_cons, Walk.frame_ofRun, callee, Activation.shown, ih]

theorem ofRun_eq (index : Int32) (place : Place) (bound : Cell) :
    ofRun m i index place.ip place.fp bound =
      (closeRun (Walk.ofRun m bound i.symbols place).frames place.fp (m.entryAddress? index)
        i.symbols).map
        (.script · (if i.symbols.isNone ∧ i.name ≠ "" then some i.name else none)) := rfl

/-- One run shows its activations. -/
theorem ofRun_of_hasRun {bound : Cell} {r : ScriptRun} (laid : m.HasRun bound r) :
    ofRun m i r.index r.place.ip r.place.fp bound = r.shownFrames m i := by
  rw [ofRun_eq]
  unfold Machine.HasRun at laid
  unfold ScriptRun.shownFrames
  rcases hr : r.frames with _ | ⟨f, outer⟩
  · rw [hr] at laid
    simp [Walk.frames, Walk.first_ofRun_eq_none laid, Walk.chain, closeRun]
  · rw [hr] at laid
    obtain ⟨short, stacked, stands⟩ := laid
    have innermost : (Walk.ofRun m bound i.symbols r.place).first = some (f.base, f.resume) := by
      rw [stands]
      exact Walk.first_ofRun_of_holds stacked.held_head
    have walked : (Walk.ofRun m bound i.symbols r.place).chain Walk.limit
        (some (f.base, f.resume)) = (f :: outer).map fun f => (f.base, f.resume) :=
      Walk.chain_of_stacked stacked short
    rw [Walk.frames, innermost, walked, closeRun_of_stacked stacked]

/-! ## All runs -/

/-- Where a walk over the calls, newest first, goes on after them. -/
def resumed : Place → List Call → Place
  | place, [] => place
  | place, .native _ _ :: older => resumed place older
  | _, .entry _ _ ip fp :: older => resumed ⟨ip, fp⟩ older

theorem resumed_append (place : Place) (newer older : List Call) :
    resumed place (newer ++ older) = resumed (resumed place newer) older := by
  induction newer generalizing place with
  | nil => rfl
  | cons c newer ih => cases c <;> exact ih _

theorem ofRuns_append (place : Place) (newer older : List Call) :
    ofRuns m i modules place.ip place.fp (newer ++ older) =
      ofRuns m i modules place.ip place.fp newer ++
        ofRuns m i modules (resumed place newer).ip (resumed place newer).fp older := by
  induction newer generalizing place with
  | nil => rfl
  | cons c newer ih =>
    cases c with
    | native owner index =>
      rw [List.cons_append, ofRuns, ih, ofRuns, resumed, List.append_assoc]
    | entry owner index ip fp =>
      rw [List.cons_append, ofRuns, ih ⟨ip, fp⟩, ofRuns, resumed, List.append_assoc]

theorem resumed_natives (owner : Handle) (place : Place) (natives : List Int32) :
    resumed place (natives.map (.native owner)) = place := by
  induction natives with
  | nil => rfl
  | cons index older ih => exact ih

theorem ofRuns_natives (owner : Handle) (place : Place) (natives : List Int32) :
    ofRuns m i modules place.ip place.fp (natives.map (.native owner)) =
      (natives.filterMap fun index => (m.native? index).filter (·.address ≠ 0)).map
        fun n => .native n.name n.address (modules.name? n.address) := by
  induction natives with
  | nil => rfl
  | cons index older ih =>
    rw [List.map_cons, ofRuns, ih, List.filterMap_cons]
    cases named : m.native? index with
    | none => simp [ofNative, named]
    | some n =>
      by_cases unresolved : n.address = 0
      · simp [ofNative, named, Native.IsResolved, unresolved, Option.filter_some]
      · simp [ofNative, named, Native.IsResolved, unresolved, Option.filter_some]

theorem resumed_nestedCalls (owner : Handle) (found : Place) (runs : List ScriptRun) :
    resumed (innermostPlace found runs) (nestedCalls owner found runs).reverse = found := by
  induction runs generalizing found with
  | nil => rfl
  | cons r inner ih =>
    rw [nestedCalls, innermostPlace, List.reverse_append, resumed_append, ih, List.reverse_cons,
      resumed_append, ← List.map_reverse, resumed_natives]
    rfl

theorem ofRuns_nestedCalls (owner : Handle) {found : Place} {runs : List ScriptRun}
    (nested : m.Nested found.fp runs) :
    ofRuns m i modules (innermostPlace found runs).ip (innermostPlace found runs).fp
        (nestedCalls owner found runs).reverse =
      ScriptRun.shown m i modules runs := by
  induction runs generalizing found with
  | nil => rfl
  | cons r inner ih =>
    obtain ⟨laid, further⟩ := nested
    rw [nestedCalls, innermostPlace, List.reverse_append, ofRuns_append, ih further,
      resumed_nestedCalls, List.reverse_cons, ofRuns_append, ← List.map_reverse, ofRuns_natives,
      resumed_natives, ofRuns, ofRun_of_hasRun laid, ofRuns, List.append_nil]
    rfl

theorem owner_of_mem_nestedCalls {owner : Handle} {found : Place} {runs : List ScriptRun} {c : Call}
    (hc : c ∈ nestedCalls owner found runs) : c.owner = owner := by
  induction runs generalizing found with
  | nil => exact absurd hc List.not_mem_nil
  | cons r inner ih =>
    rcases List.mem_append.mp hc with hc | hc
    · rcases List.mem_cons.mp hc with rfl | hc
      · rfl
      · obtain ⟨index, _, rfl⟩ := List.mem_map.mp hc
        rfl
    · exact ih hc

theorem innermost_of_owner {owner : Handle} {calls : List Call}
    (own : ∀ c ∈ calls, c.owner = owner) : innermost calls = calls.reverse := by
  unfold innermost
  cases newest : calls.getLast? with
  | none => simp [List.getLast?_eq_none_iff.mp newest]
  | some top =>
    have topOwner := own top (List.mem_of_getLast? newest)
    apply List.takeWhile_eq_self_iff.mpr
    intro c hc
    simp [own c (List.mem_reverse.mp hc), topOwner]

/-- **A backtrace tells what happened.** However many runs are nested on a machine and however deep
each of them is, the backtrace shows the activations and the natives of all of them, innermost
first, each with the function that runs in it. -/
theorem ofCalls_nestedCalls (m : Machine) (i : Instance) (modules : ModuleMap) (found : Place)
    (runs : List ScriptRun) (nested : m.Nested found.fp runs)
    (stands : ⟨m.registers.cip, m.registers.frm⟩ = innermostPlace found runs) :
    ofCalls m i modules (nestedCalls m.handle found runs) = ScriptRun.shown m i modules runs := by
  have own : ∀ c ∈ nestedCalls m.handle found runs, c.owner = m.handle :=
    fun c hc => owner_of_mem_nestedCalls hc
  rw [ofCalls, innermost_of_owner own, ← ofRuns_nestedCalls m.handle nested, ← stands]

/-- An entry point that is two functions deep sets a timer. The timer is interrupted by itself
before it has a frame. -/
def timerRuns : List ScriptRun :=
  [⟨0, [⟨48, 8, 16⟩, ⟨56, 12, 4⟩], [0, 1], ⟨8, 48⟩⟩, ⟨1, [], [], ⟨20, 48⟩⟩,
    ⟨1, [⟨24, 24, 20⟩], [], ⟨24, 24⟩⟩]

def timerMachine : Machine where
  handle := 1
  image := (((Image.mk ⟨0, 32⟩ (Array.replicate 96 0)).setCode 8 16).setData 48 56).setData 52 12
  registers := ⟨24, 24, 16, 0, 0, 64, 0⟩
  natives := [⟨"SetTimer", 0x5000⟩, ⟨"KillTimer", 0⟩]
  entries := [⟨"OnStart", 4⟩, ⟨"OnTimer", 20⟩]

theorem ofCalls_nestedCalls_timerRuns :
    timerMachine.Nested 0 timerRuns ∧
      (ofCalls timerMachine ⟨0, none, none, none⟩ (fun _ => none)
          (nestedCalls 1 ⟨0, 0⟩ timerRuns)).map TraceEntry.text =
        ["00000018 in 00000014 ()", "00000014 in 00000014 ()", "native SetTimer () [00005000]",
          "00000008 in 00000010 ()", "0000000c in 00000004 ()"] := by
  have outer : timerMachine.Stacked 0 (some 4) [⟨48, 8, 16⟩, ⟨56, 12, 4⟩] :=
    .call _ _ [] (by decide +kernel) (by decide) (by decide +kernel) (by decide +kernel)
      (by decide +kernel) (.first _ (by decide +kernel) (.inl (by decide +kernel)))
  have inner : timerMachine.Stacked 48 (some 20) [⟨24, 24, 20⟩] :=
    .first _ (by decide +kernel) (.inl (by decide +kernel))
  have nested : timerMachine.Nested 0 timerRuns :=
    ⟨⟨by decide, outer, rfl⟩, .inr (.inr (by decide)), ⟨by decide, inner, rfl⟩, trivial⟩
  have shown := ofCalls_nestedCalls timerMachine ⟨0, none, none, none⟩ (fun _ => none) ⟨0, 0⟩
    timerRuns nested rfl
  refine ⟨nested, ?_⟩
  rw [show (1 : Handle) = timerMachine.handle from rfl, shown]
  decide +kernel

end Backtrace

end Postmortem
