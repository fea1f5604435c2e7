import Postmortem.Proofs.Ascent
import Postmortem.Proofs.Extent

/-!
# Backtraces without symbols

Symbols tell what the functions of a backtrace are called and where they start. They have no say in
which frames there are: with other symbols or with none, the same frames are shown in one order.

* `TraceEntry.outline`: what symbols have no say in.
* `Backtrace.shares_outline`: what a call adds has the same outline whatever the symbols.
* `Backtrace.ofCalls_outline`: so has a backtrace, and what it shows where there are no symbols.
-/

namespace Postmortem

/-- The frame without what symbols, or the lack of them, say of it. -/
def Frame.outline (f : Frame) : Frame := { f with entry := none, symbol := none }

/-- The entry without what symbols, or the lack of them, say of it. -/
def TraceEntry.outline : TraceEntry → TraceEntry
  | native name address file => native name address file
  | script frame _ => script frame.outline none

namespace Walk

theorem chain_withSymbols (w : Walk) (symbols : Option SymbolTable) (n : Nat)
    (first : Option (Cell × Cell)) : (w.withSymbols symbols).chain n first = w.chain n first := by
  induction n generalizing first with
  | zero => cases first <;> rfl
  | succ n ih =>
    cases first with
    | none => rfl
    | some f =>
      have hop : (w.withSymbols symbols).caller? f.1 = w.caller? f.1 := rfl
      rw [chain, chain, hop, ih]

theorem outline_frames (w : Walk) (symbols : Option SymbolTable) :
    (w.withSymbols symbols).frames.map Frame.outline = w.frames.map Frame.outline := by
  rw [frames, frames, chain_withSymbols, List.map_map, List.map_map]
  rfl

section

variable {m : Machine} {bound base : Cell} {place : Place} {f : Frame}

/-- A run has the same frames with all symbols. -/
theorem outline_frames_ofRun (symbols : Option SymbolTable) :
    (ofRun m bound symbols place).frames.map Frame.outline =
      (ofRun m bound none place).frames.map Frame.outline :=
  outline_frames (ofRun m bound none place) symbols

theorem symbol_of_mem_frames (hf : f ∈ (ofRun m bound none place).frames) : f.symbol = none := by
  obtain ⟨found, _, rfl⟩ := List.mem_map.mp hf
  rfl

/-- A frame that keeps no return address was not made by a call, so no call names its function. -/
theorem callee?_of_returnless (held : m.registers.stack.HoldsFrame base)
    (returnless : m.image.dataCell (base + 4) = some 0) :
    (ofRun m bound none place).callee? base = none := by
  have kept : (ofRun m bound none place).kept? base = some 0 := by
    rw [kept?, Span.plus?_of_holdsFrame held, image_ofRun]
    exact returnless
  simp [callee?, kept]

end

end Walk

namespace Backtrace

variable {m : Machine} {i j : Instance} {modules : ModuleMap}

/-! ## One run -/

theorem outline_closeRun {frames : List Frame} (some : frames ≠ []) (fp : Cell)
    (entry : Option Address) (symbols : Option SymbolTable) :
    (closeRun frames fp entry symbols).map Frame.outline = frames.map Frame.outline := by
  obtain ⟨inner, last, rfl⟩ := (List.eq_nil_or_concat frames).resolve_left some
  simp only [closeRun, List.concat_eq_append, List.getLast?_concat, List.dropLast_concat]
  split <;> simp [Frame.outline]

theorem outline_ofRun (i j : Instance) (index : Int32) (place : Place) (bound : Cell) :
    (ofRun m i index place.ip place.fp bound).map TraceEntry.outline =
      (ofRun m j index place.ip place.fp bound).map TraceEntry.outline := by
  have shown (i : Instance) : (ofRun m i index place.ip place.fp bound).map TraceEntry.outline =
      ((closeRun (Walk.ofRun m bound i.symbols place).frames place.fp (m.entryAddress? index)
        i.symbols).map Frame.outline).map (.script · none) := by
    rw [ofRun_eq, List.map_map, List.map_map]
    rfl
  have same : (Walk.ofRun m bound i.symbols place).frames.map Frame.outline =
      (Walk.ofRun m bound j.symbols place).frames.map Frame.outline :=
    (Walk.outline_frames_ofRun _).trans (Walk.outline_frames_ofRun _).symm
  rw [shown i, shown j]
  congr 1
  by_cases bare : (Walk.ofRun m bound i.symbols place).frames = []
  · have bare' : (Walk.ofRun m bound j.symbols place).frames = [] := by
      rw [bare] at same
      exact List.map_eq_nil_iff.mp same.symm
    rw [bare, bare']
    rfl
  · have some : (Walk.ofRun m bound j.symbols place).frames ≠ [] := by
      intro bare'
      rw [bare'] at same
      exact bare (List.map_eq_nil_iff.mp same)
    rw [outline_closeRun bare, outline_closeRun some, same]

theorem forall_mem_closeRun {P : Frame → Prop} {frames : List Frame} {fp : Cell}
    {entry : Option Address} {symbols : Option SymbolTable} (all : ∀ f ∈ frames, P f)
    (entered : P (.enteredAt fp entry symbols))
    (named : ∀ f, P f → P { f with entry := entry }) :
    ∀ f ∈ closeRun frames fp entry symbols, P f := by
  unfold closeRun
  cases outermost : frames.getLast? with
  | none => simpa using entered
  | some last =>
    have ofLast : P last := all last (List.mem_of_getLast? outermost)
    dsimp only
    split
    · rw [List.forall_mem_append, List.forall_mem_singleton]
      exact ⟨fun f hf => all f (List.dropLast_subset _ hf), named last ofLast⟩
    · exact all

/-- Where there are no symbols, none are shown. -/
theorem symbol_of_mem_ofRun {index : Int32} {place : Place} {bound : Cell} {f : Frame}
    {origin : Option String} (unnamed : i.symbols = none)
    (hf : .script f origin ∈ ofRun m i index place.ip place.fp bound) : f.symbol = none := by
  rw [ofRun_eq, unnamed] at hf
  obtain ⟨g, hg, same⟩ := List.mem_map.mp hf
  cases same
  refine forall_mem_closeRun (P := (·.symbol = none)) ?_ ?_ ?_ f hg
  · exact fun f hf => Walk.symbol_of_mem_frames hf
  · cases m.entryAddress? index <;> rfl
  · exact fun f none => none

/-- Where there are symbols, the script is not named. -/
theorem origin_of_mem_ofRun {index : Int32} {place : Place} {bound : Cell} {f : Frame}
    {origin : Option String} (named : i.symbols ≠ none)
    (hf : .script f origin ∈ ofRun m i index place.ip place.fp bound) : origin = none := by
  rw [ofRun_eq] at hf
  obtain ⟨g, _, same⟩ := List.mem_map.mp hf
  cases same
  simp [named]

/-- An outermost frame that keeps no return address is taken for the entry point. -/
theorem getLast?_ofRun {index : Int32} {place : Place} {bound base : Cell}
    (unnamed : i.symbols = none)
    (found : ((Walk.ofRun m bound none place).frames.map (·.base)).getLast? = some base)
    (returnless : m.image.dataCell (base + 4) = some 0) :
    ∃ f origin, (ofRun m i index place.ip place.fp bound).getLast? = some (.script f origin) ∧
      f.base = base ∧ f.entry = m.entryAddress? index := by
  rw [List.getLast?_map, Option.map_eq_some_iff] at found
  obtain ⟨f, outermost, rfl⟩ := found
  have hf := List.mem_of_getLast? outermost
  have held : m.registers.stack.HoldsFrame f.base :=
    (Walk.of_mem_bases (List.mem_map_of_mem hf)).1
  have noEntry : f.entry = none :=
    (Walk.entry_of_mem_frames rfl hf).trans (Walk.callee?_of_returnless held returnless)
  have closed : closeRun (Walk.ofRun m bound none place).frames place.fp (m.entryAddress? index)
      none = (Walk.ofRun m bound none place).frames.dropLast ++
        [{ f with entry := m.entryAddress? index }] := by
    simp [closeRun, outermost, noEntry]
  refine ⟨{ f with entry := m.entryAddress? index },
    if i.name ≠ "" then some i.name else none, ?_, rfl, rfl⟩
  rw [ofRun_eq, unnamed, closed, List.map_append, List.map_singleton, List.getLast?_concat]
  simp

/-! ## All runs -/

/-- What a call adds, without what symbols say. -/
def Share.outline (s : Share) : Share := { s with shown := s.shown.map TraceEntry.outline }

/-- The outermost frame that was found for an entry point is shown to belong to it, if it keeps no
return address. -/
def Share.Rooted (m : Machine) (s : Share) : Prop :=
  ∀ owner index ip fp, s.call = .entry owner index ip fp →
    ∀ base, s.found.getLast? = some base → m.image.dataCell (base + 4) = some 0 →
      ∃ f origin, s.shown.getLast? = some (.script f origin) ∧ f.base = base ∧
        f.entry = m.entryAddress? index

theorem shares_outline (i j : Instance) (place : Place) (calls : List Call) :
    (shares m i modules place calls).map Share.outline =
      (shares m j modules place calls).map Share.outline := by
  induction calls generalizing place with
  | nil => rfl
  | cons c older ih =>
    cases c with
    | native owner index => simp only [shares, List.map_cons, ih]
    | entry owner index ip fp =>
      have bases : (Walk.ofRun m fp i.symbols place).frames.map (·.base) =
          (Walk.ofRun m fp j.symbols place).frames.map (·.base) := by
        have outlines : (Walk.ofRun m fp i.symbols place).frames.map Frame.outline =
            (Walk.ofRun m fp j.symbols place).frames.map Frame.outline :=
          (Walk.outline_frames_ofRun i.symbols).trans (Walk.outline_frames_ofRun j.symbols).symm
        have bases := congrArg (List.map (·.base)) outlines
        rwa [List.map_map, List.map_map] at bases
      simp only [shares, List.map_cons, ih, Share.outline, bases, outline_ofRun i j]

theorem shown_outline (place : Place) (calls : List Call) :
    ((shares m i modules place calls).map Share.outline).flatMap (·.shown) =
      (ofRuns m i modules place.ip place.fp calls).map TraceEntry.outline := by
  rw [← shown_shares, List.flatMap_map, List.map_flatMap]
  rfl

theorem rooted_of_mem_shares (unnamed : i.symbols = none) {place : Place} {calls : List Call} :
    ∀ s ∈ shares m i modules place calls, s.Rooted m := by
  induction calls generalizing place with
  | nil => exact nofun
  | cons c older ih =>
    cases c with
    | native owner index =>
      refine List.forall_mem_cons.mpr ⟨?_, ih⟩
      rintro _ _ _ _ ⟨⟩
    | entry owner index ip fp =>
      refine List.forall_mem_cons.mpr ⟨?_, ih⟩
      rintro _ _ _ _ ⟨⟩ base found returnless
      rw [unnamed] at found
      exact getLast?_ofRun unnamed found returnless

theorem script_of_mem_ofRuns {ip fp : Cell} {calls : List Call} {f : Frame}
    {origin : Option String} (shown : .script f origin ∈ ofRuns m i modules ip fp calls) :
    ∃ (index : Int32) (place : Place) (bound : Cell),
      .script f origin ∈ ofRun m i index place.ip place.fp bound := by
  induction calls generalizing ip fp with
  | nil => cases shown
  | cons c older ih =>
    cases c with
    | native owner index =>
      rcases List.mem_append.mp shown with here | later
      · unfold ofNative at here
        split at here
        · split at here <;> simp at here
        · cases here
      · exact ih later
    | entry owner index ip' fp' =>
      rcases List.mem_append.mp shown with here | later
      · exact ⟨index, ⟨ip, fp⟩, fp', here⟩
      · exact ih later

/-- **Symbols do not shape a backtrace.** Whatever is known of the symbols of a machine, a backtrace
of its calls has the same entries in the same order: the same natives, and frames that lie in the
same places and resume at the same addresses. Without symbols no frame has a symbol, and a run that
was walked to a frame without a return address shows its entry point there. With symbols no entry
names the script. -/
theorem ofCalls_outline (m : Machine) (modules : ModuleMap) (calls : List Call) (i j : Instance) :
    (ofCalls m i modules calls).map TraceEntry.outline =
        (ofCalls m j modules calls).map TraceEntry.outline ∧
      (i.symbols = none →
        (∀ f origin, .script f origin ∈ ofCalls m i modules calls → f.symbol = none) ∧
        let parts := shares m i modules ⟨m.registers.cip, m.registers.frm⟩ (innermost calls)
        parts.map (·.call) = innermost calls ∧
          parts.flatMap (·.shown) = ofCalls m i modules calls ∧ ∀ s ∈ parts, s.Rooted m) ∧
      (i.symbols ≠ none →
        ∀ f origin, .script f origin ∈ ofCalls m i modules calls → origin = none) := by
  let place : Place := ⟨m.registers.cip, m.registers.frm⟩
  refine ⟨?_, ?_, ?_⟩
  · rw [ofCalls, ofCalls, ← shown_outline place, ← shown_outline place, shares_outline i j]
  · intro unnamed
    refine ⟨?_, calls_shares .., shown_shares .., rooted_of_mem_shares unnamed⟩
    intro f origin shown
    obtain ⟨_, _, _, here⟩ := script_of_mem_ofRuns shown
    exact symbol_of_mem_ofRun unnamed here
  · intro named f origin shown
    obtain ⟨_, _, _, here⟩ := script_of_mem_ofRuns shown
    exact origin_of_mem_ofRun named here

theorem ofCalls_outline_timerRuns :
    let calls := nestedCalls 1 ⟨0, 0⟩ timerRuns
    let bare : Instance := ⟨0, some "gamemodes/timers.amx", none, none⟩
    let named : Instance :=
      ⟨0, some "gamemodes/timers.amx", some ⟨fun _ => some "tick", fun _ => none, id⟩, none⟩
    let shown (i : Instance) := ofCalls timerMachine i (fun _ => none) calls
    bare.symbols = none ∧ named.symbols ≠ none ∧
      (shown bare).map TraceEntry.outline = (shown named).map TraceEntry.outline ∧
      (∀ f origin, .script f origin ∈ shown bare → f.symbol = none) ∧
      (∀ f origin, .script f origin ∈ shown named → origin = none) ∧
      (shown bare).map TraceEntry.text = ["00000018 in 00000014 () from timers.amx",
        "00000014 in 00000014 () from timers.amx", "native SetTimer () [00005000]",
        "00000008 in 00000010 () from timers.amx", "0000000c in 00000004 () from timers.amx"] ∧
      (shown named).map TraceEntry.text = ["00000018 in tick ()", "00000014 in tick ()",
        "native SetTimer () [00005000]", "00000008 in tick ()", "0000000c in tick ()"] := by
  intro calls bare named shown
  obtain ⟨same, unnamed, _⟩ := ofCalls_outline timerMachine (fun _ => none) calls bare named
  obtain ⟨_, _, withSymbols⟩ := ofCalls_outline timerMachine (fun _ => none) calls named bare
  have known : named.symbols ≠ none := Option.some_ne_none _
  exact ⟨rfl, known, same, (unnamed rfl).1, withSymbols known, by decide +kernel,
    by decide +kernel⟩

end Backtrace

end Postmortem
