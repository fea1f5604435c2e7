import Postmortem.Proofs.Stitching

/-!
# Walks lead up the stack

The frames of one walk lie one above the other, whatever the memory holds. A walk ends below the
place at which the next one starts, so over all runs of a machine no frame is found twice.

* `Walk.forall_mem_chain`, `Walk.pairwise_chain`: what every hop keeps holds along a walk.
* `Backtrace.shares`: what each call adds to a backtrace, and the frames that were found for it.
* `Backtrace.frames_ascend`: all frames found lie in the stack, each above the one before it.
-/

namespace Postmortem

namespace Walk

variable {w : Walk}

theorem of_caller? {fp : Cell} {f : Cell × Cell} (hop : w.caller? fp = some f) :
    fp < f.1 ∧ w.stack.HoldsFrame f.1 ∧ w.Within f.1 := by
  unfold caller? at hop
  cases base : w.image.dataCell fp with
  | none => simp [base] at hop
  | some caller =>
    cases kept : w.kept? fp with
    | none => simp [base, kept] at hop
    | some resume =>
      simp only [base, kept, Option.bind_eq_bind, Option.bind_some, Option.ite_none_right_eq_some,
        Option.some.injEq] at hop
      obtain ⟨⟨_, _, above, inStack, within⟩, rfl⟩ := hop
      exact ⟨above, inStack, within⟩

/-- What holds of the first frame and is kept by every hop holds of all frames. -/
theorem forall_mem_chain {P : Cell → Prop} (hop : ∀ fp, P fp → ∀ f ∈ w.caller? fp, P f.1) (n : Nat)
    {start : Option (Cell × Cell)} (first : ∀ f ∈ start, P f.1) : ∀ f ∈ w.chain n start, P f.1 := by
  induction n generalizing start with
  | zero => cases start <;> exact nofun
  | succ n ih =>
    cases start with
    | none => exact nofun
    | some f =>
      rw [chain, List.forall_mem_cons]
      exact ⟨first f rfl, ih (hop f.1 (first f rfl))⟩

theorem le_of_mem_chain {low : Cell} (n : Nat) {start : Option (Cell × Cell)}
    (first : ∀ f ∈ start, low ≤ f.1) : ∀ f ∈ w.chain n start, low ≤ f.1 :=
  forall_mem_chain
    (fun _ reached _ hop => Int32.le_trans reached (Int32.le_of_lt (of_caller? hop).1)) n first

theorem pairwise_chain (n : Nat) (start : Option (Cell × Cell)) :
    (w.chain n start).Pairwise fun f g => f.1 < g.1 := by
  induction n generalizing start with
  | zero => cases start <;> exact .nil
  | succ n ih =>
    cases start with
    | none => exact .nil
    | some f =>
      refine List.pairwise_cons.mpr ⟨?_, ih _⟩
      have above : ∀ fp, f.1 < fp → ∀ g ∈ w.caller? fp, f.1 < g.1 :=
        fun fp reached g hop => Int32.lt_trans reached (of_caller? hop).1
      exact forall_mem_chain above n fun g hop => (of_caller? hop).1

variable {m : Machine} {bound : Cell} {symbols : Option SymbolTable} {place : Place}

theorem of_first_ofRun {f : Cell × Cell} (first : (ofRun m bound symbols place).first = some f) :
    f.1 = place.fp ∧ m.registers.stack.HoldsFrame f.1 ∧ (bound ≠ 0 → f.1 < bound) := by
  unfold ofRun boundedBy at first
  by_cases unbounded : bound = 0
  · simp only [unbounded, if_true, withSymbols, start, Option.ite_none_right_eq_some,
      Option.some.injEq] at first
    obtain ⟨⟨_, inStack⟩, rfl⟩ := first
    exact ⟨rfl, inStack, fun bounded => absurd unbounded bounded⟩
  · simp only [unbounded, if_false, withSymbols, start, Option.filter_eq_some_iff,
      Option.ite_none_right_eq_some, Option.some.injEq, decide_eq_true_eq] at first
    obtain ⟨⟨⟨_, inStack⟩, rfl⟩, below⟩ := first
    exact ⟨rfl, inStack, fun _ => below⟩

theorem map_base_frames (w : Walk) : w.frames.map (·.base) = (w.chain limit w.first).map (·.1) := by
  rw [frames, List.map_map]
  rfl

/-- The frames of a run lie in the stack, at its frame pointer or above it, and below the run that
it interrupted. -/
theorem of_mem_bases {a : Cell} (ha : a ∈ (ofRun m bound symbols place).frames.map (·.base)) :
    m.registers.stack.HoldsFrame a ∧ place.fp ≤ a ∧ (bound ≠ 0 → a < bound) := by
  rw [map_base_frames] at ha
  obtain ⟨f, hf, rfl⟩ := List.mem_map.mp ha
  have hop (fp : Cell) (g : Cell × Cell) (hg : g ∈ (ofRun m bound symbols place).caller? fp) :
      m.registers.stack.HoldsFrame g.1 ∧ (bound ≠ 0 → g.1 < bound) := by
    obtain ⟨_, inStack, within⟩ := of_caller? hg
    rw [stack_ofRun] at inStack
    exact ⟨inStack, within_ofRun.mp within⟩
  have inside := forall_mem_chain (P := fun a => m.registers.stack.HoldsFrame a ∧
    (bound ≠ 0 → a < bound)) (fun fp _ => hop fp) limit
    (fun g first => (of_first_ofRun first).2) f hf
  have above : place.fp ≤ f.1 :=
    le_of_mem_chain limit (fun g first => Int32.le_of_eq (of_first_ofRun first).1.symm) f hf
  exact ⟨inside.1, above, inside.2⟩

theorem pairwise_bases (w : Walk) : (w.frames.map (·.base)).Pairwise (· < ·) := by
  rw [map_base_frames, List.pairwise_map]
  exact pairwise_chain ..

end Walk

/-- Where the frame of an entry lies. -/
def TraceEntry.base? : TraceEntry → Option Cell
  | native _ _ _ => none
  | script frame _ => some frame.base

namespace Backtrace

/-- What one call adds to a backtrace. -/
structure Share where
  call : Call
  /-- Where the frames lie that were found on the stack for it, innermost first. -/
  found : List Cell
  shown : Backtrace

/-- What each of the calls of one machine adds, newest first, when it has come to a place. -/
def shares (m : Machine) (i : Instance) (modules : ModuleMap) : Place → List Call → List Share
  | _, [] => []
  | place, .native owner index :: older =>
    ⟨.native owner index, [], ofNative m modules index⟩ :: shares m i modules place older
  | place, .entry owner index ip fp :: older =>
    ⟨.entry owner index ip fp, (Walk.ofRun m fp i.symbols place).frames.map (·.base),
      ofRun m i index place.ip place.fp fp⟩ :: shares m i modules ⟨ip, fp⟩ older

/-- The frame pointers that the calls of entry points found, in the order of the calls. -/
def foundAt (calls : List Call) : List Cell :=
  calls.filterMap fun
    | .native _ _ => none
    | .entry _ _ _ fp => some fp

/-- Frame pointers in the order of the runs that they interrupted, newest first: one that is no
frame can only be the oldest, and the others never go down. -/
structure Rising (fps : List Cell) : Prop where
  frames : ∀ fp ∈ fps.dropLast, fp ≠ 0
  upward : (fps.filter (· ≠ 0)).Pairwise (· ≤ ·)

variable {m : Machine} {i : Instance} {modules : ModuleMap}

theorem calls_shares (place : Place) (calls : List Call) :
    (shares m i modules place calls).map (·.call) = calls := by
  induction calls generalizing place with
  | nil => rfl
  | cons c older ih => cases c <;> simp [shares, ih]

theorem shown_shares (place : Place) (calls : List Call) :
    (shares m i modules place calls).flatMap (·.shown) =
      ofRuns m i modules place.ip place.fp calls := by
  induction calls generalizing place with
  | nil => rfl
  | cons c older ih => cases c <;> simp [shares, ofRuns, ih]

/-! ## The frames found -/

theorem found_of_no_entries {place : Place} {calls : List Call} (none : foundAt calls = []) :
    (shares m i modules place calls).flatMap (·.found) = [] := by
  induction calls with
  | nil => rfl
  | cons c older ih =>
    cases c with
    | native owner index => exact ih none
    | entry owner index ip fp => simp [foundAt] at none

theorem holdsFrame_of_mem_found {place : Place} {calls : List Call} {a : Cell}
    (ha : a ∈ (shares m i modules place calls).flatMap (·.found)) :
    m.registers.stack.HoldsFrame a := by
  induction calls generalizing place with
  | nil => cases ha
  | cons c older ih =>
    cases c with
    | native owner index => exact ih ha
    | entry owner index ip fp =>
      rw [shares, List.flatMap_cons, List.mem_append] at ha
      rcases ha with here | later
      · exact (Walk.of_mem_bases here).1
      · exact ih later

theorem Rising.of_cons {fp : Cell} {older : List Cell} (rising : Rising (fp :: older)) :
    Rising older ∧ (fp = 0 → older = []) ∧ ∀ fp' ∈ older, fp ≠ 0 → fp' ≠ 0 → fp ≤ fp' := by
  obtain ⟨frames, upward⟩ := rising
  refine ⟨⟨?_, ?_⟩, ?_, ?_⟩
  · intro fp' hfp'
    cases older with
    | nil => cases hfp'
    | cons next older => exact frames fp' (List.mem_cons_of_mem _ hfp')
  · exact upward.sublist ((List.sublist_cons_self ..).filter _)
  · intro zero
    cases older with
    | nil => rfl
    | cons next older => exact absurd zero (frames fp List.mem_cons_self)
  · intro fp' hfp' some some'
    rw [List.filter_cons_of_pos (by simpa using some), List.pairwise_cons] at upward
    exact upward.1 fp' (List.mem_filter.mpr ⟨hfp', by simpa using some'⟩)

/-- Nothing is found below the place where a walk starts and below the frames it resumes in. -/
theorem le_of_mem_found {low : Cell} {place : Place} {calls : List Call}
    (rising : Rising (foundAt calls)) (above : ∀ fp ∈ foundAt calls, fp ≠ 0 → low ≤ fp)
    (from_ : low ≤ place.fp) :
    ∀ a ∈ (shares m i modules place calls).flatMap (·.found), low ≤ a := by
  induction calls generalizing place with
  | nil => exact nofun
  | cons c older ih =>
    cases c with
    | native owner index => exact ih rising above from_
    | entry owner index ip fp =>
      obtain ⟨further, last, _⟩ := Rising.of_cons (show Rising (fp :: foundAt older) from rising)
      rw [shares, List.flatMap_cons, List.forall_mem_append]
      constructor
      · intro a ha
        exact Int32.le_trans from_ (Walk.of_mem_bases ha).2.1
      · by_cases zero : fp = 0
        · rw [found_of_no_entries (last zero)]
          exact nofun
        · refine ih further (fun fp' hfp' => above fp' ?_) (above fp ?_ zero)
          · exact List.mem_cons_of_mem _ hfp'
          · exact List.mem_cons_self

/-- By induction on the calls: what is found for the first run lies below the frame that the next
one resumes in, and the rest does not. -/
theorem pairwise_found {place : Place} {calls : List Call} (rising : Rising (foundAt calls)) :
    ((shares m i modules place calls).flatMap (·.found)).Pairwise (· < ·) := by
  induction calls generalizing place with
  | nil => exact .nil
  | cons c older ih =>
    cases c with
    | native owner index => exact ih rising
    | entry owner index ip fp =>
      obtain ⟨further, last, upward⟩ :=
        Rising.of_cons (show Rising (fp :: foundAt older) from rising)
      rw [shares, List.flatMap_cons, List.pairwise_append]
      refine ⟨Walk.pairwise_bases _, ih further, ?_⟩
      intro a ha b hb
      by_cases zero : fp = 0
      · rw [found_of_no_entries (last zero)] at hb
        cases hb
      · have below : a < fp := (Walk.of_mem_bases ha).2.2 zero
        have beyond : fp ≤ b :=
          le_of_mem_found further (fun fp' hfp' => upward fp' hfp' zero) (Int32.le_refl fp) b hb
        exact Int32.lt_of_lt_of_le below beyond

/-! ## The frames shown -/

theorem map_base_closeRun {frames : List Frame} (some : frames ≠ []) (fp : Cell)
    (entry : Option Address) (symbols : Option SymbolTable) :
    (closeRun frames fp entry symbols).map (·.base) = frames.map (·.base) := by
  obtain ⟨inner, last, rfl⟩ := (List.eq_nil_or_concat frames).resolve_left some
  simp only [closeRun, List.concat_eq_append, List.getLast?_concat, List.dropLast_concat]
  split <;> simp

/-- What a call may add. A native adds itself or nothing. An entry point adds the frames that were
found for it, and where none were, one entry that stands for it. -/
def Share.Proper (m : Machine) (i : Instance) (s : Share) : Prop :=
  match s.call with
  | .native _ _ => s.found = [] ∧ s.shown.length ≤ 1 ∧ ∀ e ∈ s.shown, e.base? = none
  | .entry _ index _ _ =>
    s.shown ≠ [] ∧ (∀ e ∈ s.shown, e.base? ≠ none) ∧
      (s.shown.map TraceEntry.base? = s.found.map some ∨
        s.found = [] ∧ ∃ fp origin,
          s.shown = [.script (.enteredAt fp (m.entryAddress? index) i.symbols) origin])

theorem proper_native (owner : Handle) (index : Int32) :
    Share.Proper m i ⟨.native owner index, [], ofNative m modules index⟩ := by
  simp only [Share.Proper, ofNative]
  split
  · split <;> simp [TraceEntry.base?]
  · simp

theorem proper_entry (owner : Handle) (index : Int32) (place : Place) (ip fp : Cell) :
    Share.Proper m i ⟨.entry owner index ip fp,
      (Walk.ofRun m fp i.symbols place).frames.map (·.base),
      ofRun m i index place.ip place.fp fp⟩ := by
  simp only [Share.Proper, ofRun_eq]
  by_cases bare : (Walk.ofRun m fp i.symbols place).frames = []
  · simp only [bare, closeRun, List.getLast?_nil, List.map_cons, List.map_nil]
    refine ⟨by simp, by simp [TraceEntry.base?], .inr ⟨trivial, place.fp, _, rfl⟩⟩
  · have bases := map_base_closeRun bare place.fp (m.entryAddress? index) i.symbols
    have some : closeRun (Walk.ofRun m fp i.symbols place).frames place.fp (m.entryAddress? index)
        i.symbols ≠ [] := by
      intro none
      rw [none] at bases
      exact bare (List.map_eq_nil_iff.mp bases.symm)
    refine ⟨by simpa using some, by simp [TraceEntry.base?], .inl ?_⟩
    rw [← bases, List.map_map, List.map_map]
    rfl

theorem proper_of_mem_shares {place : Place} {calls : List Call} :
    ∀ s ∈ shares m i modules place calls, s.Proper m i := by
  induction calls generalizing place with
  | nil => exact nofun
  | cons c older ih =>
    cases c with
    | native owner index => exact List.forall_mem_cons.mpr ⟨proper_native owner index, ih⟩
    | entry owner index ip fp =>
      exact List.forall_mem_cons.mpr ⟨proper_entry owner index place ip fp, ih⟩

/-- **No frame is found twice.** Whatever the memory and the registers hold, as long as each run
resumes no lower than the run that interrupted it: the frames that were found on the stack for a
backtrace lie in the stack, each above the one before it, across the runs as well as within them.
Every entry point shows something, and every native at most itself. -/
theorem frames_ascend (m : Machine) (i : Instance) (modules : ModuleMap) (calls : List Call)
    (rising : Rising (foundAt (innermost calls))) :
    let parts := shares m i modules ⟨m.registers.cip, m.registers.frm⟩ (innermost calls)
    parts.map (·.call) = innermost calls ∧
      parts.flatMap (·.shown) = ofCalls m i modules calls ∧
      (parts.flatMap (·.found)).Pairwise (· < ·) ∧
      (∀ a ∈ parts.flatMap (·.found),
        m.registers.stk.toInt ≤ a.toInt ∧ a.toInt ≤ m.registers.stp.toInt - 8) ∧
      ∀ s ∈ parts, s.Proper m i := by
  intro parts
  refine ⟨calls_shares .., shown_shares .., pairwise_found rising, ?_, proper_of_mem_shares⟩
  intro a ha
  obtain ⟨low, high⟩ := holdsFrame_of_mem_found ha
  have width : (2 * Cell.width : Int) = 8 := rfl
  rw [width] at high
  exact ⟨low, Int.le_sub_right_of_add_le high⟩

/-- The machine with the timers, when the innermost frame has come to name one of an interrupted run
as its caller's, and the outermost frame the innermost one. -/
def brokenTimers : Machine :=
  { timerMachine with
    image := (((timerMachine.image.setData 24 56).setData 28 12).setData 56 24).setData 60 12 }

theorem frames_ascend_brokenTimers :
    let calls := nestedCalls 1 ⟨0, 0⟩ timerRuns
    let parts :=
      shares brokenTimers ⟨0, none, none, none⟩ (fun _ => none) ⟨24, 24⟩ (innermost calls)
    Rising (foundAt (innermost calls)) ∧ (parts.flatMap (·.found)).Pairwise (· < ·) ∧
      parts.flatMap (·.found) = [24, 48, 56] ∧ parts.map (·.shown.length) = [1, 1, 0, 1, 2] := by
  intro calls parts
  have found : foundAt (innermost calls) = [48, 48, 0] := by decide +kernel
  have rising : Rising (foundAt (innermost calls)) := by
    rw [found]
    exact ⟨by simp, by decide⟩
  obtain ⟨_, _, ascending, _⟩ :=
    frames_ascend brokenTimers ⟨0, none, none, none⟩ (fun _ => none) calls rising
  exact ⟨rising, ascending, by decide +kernel, by decide +kernel⟩

end Backtrace

end Postmortem
