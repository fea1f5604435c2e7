import Postmortem.CallStack.History
import Postmortem.Locator
import Postmortem.Proofs.Stitching
import Postmortem.Report

/-!
# Diagnostics never leave the range of a word

Diagnostics look at machines in a broken state, and a few of their steps compute without a check: a
difference of cells or of addresses, a clamp, a sum of positions, a depth less one, the count of the
frames of a walk. Here each of these steps is strict: it fails where its result is out of range.
With strict steps in place of the others every computation still ends, with the same result.

* `Breach`: what a strict step may find.
* `Image.strictCodeCell`, `Walk.strictFrames`, `Backtrace.strictOfCalls`, `Fault.strictDetails`,
  `Locator.strictLocate`, `History.strictRun`: computations with strict steps.
* `diagnostics_in_range`: none of them fails, and each gives what the computation without checks
  gives.
-/

namespace Postmortem

/-- What a strict step found out of range. -/
inductive Breach where
  | cell
  | width
  | bounds
  | position
  | depth
  | count
  deriving DecidableEq, Repr

abbrev Strict := Except Breach

namespace Strict

def cell (n : Int) : Strict Cell := (Cell.ofInt? n).elim (.error .cell) .ok

def difference (breach : Breach) (a b : Nat) : Strict Nat :=
  if b ≤ a then .ok (a - b) else .error breach

/-- Fails if the bounds are reversed. -/
def clamp (n low high : Nat) : Strict Nat :=
  if low ≤ high then .ok (max low (min n high)) else .error .bounds

/-- A position in an image of this size that a machine word can hold. -/
def position (size n : Nat) : Strict Nat :=
  if n ≤ size ∧ n < UInt64.size then .ok n else .error .position

/-- One more frame of a walk. -/
def count (n : Nat) : Strict Nat := if n < Walk.limit then .ok (n + 1) else .error .count

@[simp] theorem bind_ok {α β : Type} (a : α) (f : α → Strict β) :
    ((.ok a : Strict α) >>= f) = f a := rfl

@[simp] theorem pure_eq {α : Type} (a : α) : (pure a : Strict α) = .ok a := rfl

theorem difference_of_le {a b : Nat} (h : b ≤ a) (breach : Breach) :
    difference breach a b = .ok (a - b) := if_pos h

theorem clamp_of_le {low high : Nat} (h : low ≤ high) (n : Nat) :
    clamp n low high = .ok (max low (min n high)) := if_pos h

end Strict

/-! ## Reading code -/

namespace Image

variable (i : Image)

/-- Where the code starts and ends. -/
def strictBounds : Strict (Nat × Nat) := do
  let start := min i.header.code.toNat i.bytes.size
  let stop ← Strict.clamp i.header.data.toNat start i.bytes.size
  return (start, stop)

def strictCode : Strict Bytes := do
  let (start, stop) ← i.strictBounds
  return i.bytes.extract start stop

def strictCodeCell (a : Cell) : Strict (Option Cell) := do
  let (start, stop) ← i.strictBounds
  if 0 ≤ a.toInt ∧ start + a.toInt.toNat + Cell.width ≤ stop then
    return i.cellAt (start + a.toInt.toNat)
  else return none

@[simp] theorem strictBounds_eq : i.strictBounds = .ok (i.codeStart, i.codeEnd) := by
  have ordered : min i.header.code.toNat i.bytes.size ≤ i.bytes.size := Nat.min_le_right ..
  rw [strictBounds, Strict.clamp_of_le ordered]
  rfl

@[simp] theorem strictCode_eq : i.strictCode = .ok i.code := by
  rw [strictCode, strictBounds_eq]
  rfl

@[simp] theorem strictCodeCell_eq (a : Cell) : i.strictCodeCell a = .ok (i.codeCell a) := by
  simp only [strictCodeCell, strictBounds_eq, Strict.bind_ok, codeCell]
  split <;> rfl

/-- Code that is there starts where the header says and ends in the image. -/
theorem code_in_bytes (some : i.code.isEmpty = false) :
    i.header.code.toNat + i.code.size ≤ i.bytes.size := by
  have size : i.code.size = min i.codeEnd i.bytes.size - i.codeStart := by simp [code]
  have positive : 0 < i.code.size := by simpa [Array.isEmpty_iff, Array.size_pos_iff] using some
  have start : i.codeStart = min i.header.code.toNat i.bytes.size := rfl
  omega

end Image

/-! ## Symbols -/

namespace FunctionRange

def strictWidth (f : FunctionRange) : Strict Nat :=
  Strict.difference .width f.stop.toNat f.start.toNat

def strictNarrowest : List FunctionRange → Strict (Option FunctionRange)
  | [] => return none
  | f :: rest => do
    let width ← f.strictWidth
    match ← strictNarrowest rest with
    | some g => return if (← g.strictWidth) < width then some g else some f
    | none => return some f

theorem mem_of_narrowest {fs : List FunctionRange} {f : FunctionRange}
    (h : narrowest fs = some f) : f ∈ fs := by
  induction fs with
  | nil => cases h
  | cons g rest ih =>
    rw [narrowest] at h
    split at h
    · rename_i k found
      split at h
      · cases h
        exact List.mem_cons_of_mem _ (ih found)
      · cases h
        exact List.mem_cons_self
    · cases h
      exact List.mem_cons_self

theorem Covers.strictWidth {f : FunctionRange} {a : Address} (covers : f.Covers a) :
    f.strictWidth = .ok f.width := by
  have start : f.start.toNat ≤ a.toNat := covers.1
  have stop : a.toNat < f.stop.toNat := covers.2
  exact Strict.difference_of_le (by omega) _

/-- A reversed range has no width, and covers nothing. -/
example : strictWidth ⟨"f", 8, 4⟩ = .error .width := rfl

/-- Ranges that cover an address are not reversed. -/
theorem strictNarrowest_eq {fs : List FunctionRange} {a : Address} (covers : ∀ f ∈ fs, f.Covers a) :
    strictNarrowest fs = .ok (narrowest fs) := by
  induction fs with
  | nil => rfl
  | cons f rest ih =>
    obtain ⟨here, later⟩ := List.forall_mem_cons.mp covers
    rw [strictNarrowest, here.strictWidth, Strict.bind_ok, ih later, Strict.bind_ok, narrowest]
    cases found : narrowest rest with
    | none => rfl
    | some g =>
      simp only [(later g (mem_of_narrowest found)).strictWidth, Strict.bind_ok]
      split <;> rfl

end FunctionRange

namespace SymbolMap

variable (m : SymbolMap) (a : Address)

def strictEnclosing : Strict (Option FunctionRange) :=
  FunctionRange.strictNarrowest (m.functions.filter (·.Covers a))

def strictEntry : Strict Address := do
  return (← m.strictEnclosing a).elim a (·.start)

/-- The row of an address is found without arithmetic. -/
def strictSymbol : Strict (Option FrameSymbol) := do
  return (← m.strictEnclosing a).map fun f => ⟨f.name, (m.row? a).map (·.location)⟩

@[simp] theorem strictEnclosing_eq : m.strictEnclosing a = .ok (m.enclosing? a) := by
  apply FunctionRange.strictNarrowest_eq (a := a)
  intro f hf
  simpa using (List.mem_filter.mp hf).2

@[simp] theorem strictEntry_eq : m.strictEntry a = .ok (m.table.entry a) := by
  rw [strictEntry, strictEnclosing_eq]
  rfl

@[simp] theorem strictSymbol_eq : m.strictSymbol a = .ok (m.table.symbol? a) := by
  rw [strictSymbol, strictEnclosing_eq, Strict.bind_ok, SymbolTable.symbol?]
  simp only [table, Option.map_map]
  rfl

end SymbolMap

/-! ## Walks -/

/-- Four bytes below an address that lies far enough up is a cell. -/
theorem Strict.cell_of_not_lt {resume : Cell} (far : ¬ resume < 8) :
    Strict.cell (resume.toInt - Cell.width) = .ok (resume - 4) := by
  have low : (8 : Cell).toInt ≤ resume.toInt := Int32.le_iff_toInt_le.mp (Int32.not_lt.mp far)
  have eight : (8 : Cell).toInt = 8 := rfl
  have width : (Cell.width : Int) = 4 := rfl
  have high := resume.toInt_lt
  have inside : -2147483648 ≤ resume.toInt - 4 ∧ resume.toInt - 4 ≤ 2147483647 := by omega
  rw [cell, Cell.ofInt?, width, if_pos inside, Int32.ofInt_sub, Int32.ofInt_toInt]
  rfl

namespace Walk

/-- Where a walk has come to. -/
structure Progress where
  next : Option (Cell × Cell)
  /-- How many frames it has shown. -/
  shown : Nat

variable (w : Walk) (symbols : Option SymbolMap)

def strictCallee (fp : Cell) : Strict (Option Address) :=
  match w.kept? fp with
  | none => return none
  | some resume =>
    if resume < 8 then return none
    else do
      match ← w.image.strictCodeCell (← Strict.cell (resume.toInt - Cell.width)) with
      | none => return none
      | some target =>
        if 0 < target ∧ target % 4 = 0 then
          return if (← w.image.strictCodeCell target).isSome then some target.toUInt32 else none
        else return none

def strictFrame (f : Cell × Cell) : Strict Frame :=
  match symbols with
  | some map => do
    let entry ← map.strictEntry f.2.toUInt32
    return ⟨f.1, f.2, some entry, ← map.strictSymbol f.2.toUInt32⟩
  | none => return ⟨f.1, f.2, ← w.strictCallee f.1, none⟩

/-- The next frame, and where the walk is then. -/
def strictStep (s : Progress) : Strict (Option (Frame × Progress)) :=
  match s.next with
  | none => return none
  | some f =>
    if limit ≤ s.shown then return none
    else do
      let shown ← Strict.count s.shown
      return some (← w.strictFrame symbols f, ⟨w.caller? f.1, shown⟩)

/-- Steps until there is no frame left. A walk that goes on after `n` steps is refused. -/
def strictSteps : Nat → Progress → Strict (List Frame)
  | 0, _ => .error .count
  | n + 1, s => do
    match ← w.strictStep symbols s with
    | none => return []
    | some (frame, s) => return frame :: (← strictSteps n s)

/-- The last step shows that no frame is left. -/
def strictFrames : Strict (List Frame) := w.strictSteps symbols (limit + 1) ⟨w.first, 0⟩

@[simp] theorem strictCallee_eq (fp : Cell) : w.strictCallee fp = .ok (w.callee? fp) := by
  unfold strictCallee callee?
  cases w.kept? fp with
  | none => rfl
  | some resume =>
    by_cases near : resume < 8
    · simp [near]
    · simp only [near, if_false, Strict.cell_of_not_lt near, Strict.bind_ok,
        Image.strictCodeCell_eq, Option.bind_eq_bind, Option.bind_some]
      cases w.image.codeCell (resume - 4) with
      | none => rfl
      | some target =>
        simp only [Option.bind_some, ← and_assoc]
        by_cases aligned : 0 < target ∧ target % 4 = 0
        · simp [aligned]
        · simp [aligned]

variable {w symbols}

theorem strictFrame_eq (table : w.symbols = symbols.map SymbolMap.table) (f : Cell × Cell) :
    w.strictFrame symbols f = .ok (w.frame f) := by
  unfold strictFrame frame
  cases symbols with
  | none => simp [table, Frame.resumingAt]
  | some map => simp [table, Frame.resumingAt]

/-- By induction on the frames that the walk may still show. -/
theorem strictSteps_eq (table : w.symbols = symbols.map SymbolMap.table) {n shown : Nat}
    (left : shown + n = limit) (next : Option (Cell × Cell)) :
    w.strictSteps symbols (n + 1) ⟨next, shown⟩ = .ok ((w.chain n next).map w.frame) := by
  induction n generalizing shown next with
  | zero =>
    cases next with
    | none => rfl
    | some f =>
      have full : limit ≤ shown := by omega
      simp [strictSteps, strictStep, full, chain]
  | succ n ih =>
    cases next with
    | none => rfl
    | some f =>
      have room : shown < limit := by omega
      have further : w.strictSteps symbols (n + 1) ⟨w.caller? f.1, shown + 1⟩ =
          .ok ((w.chain n (w.caller? f.1)).map w.frame) := ih (by omega) (w.caller? f.1)
      rw [strictSteps, strictStep]
      simp only [Nat.not_le.mpr room, if_false, Strict.count, room, if_true, Strict.bind_ok,
        strictFrame_eq table, Strict.pure_eq, further, chain, List.map_cons]

theorem strictFrames_eq (table : w.symbols = symbols.map SymbolMap.table) :
    w.strictFrames symbols = .ok w.frames := strictSteps_eq table (Nat.zero_add _) w.first

end Walk

/-! ## Backtraces and details -/

namespace Backtrace

variable (m : Machine) (i : Instance) (symbols : Option SymbolMap) (modules : ModuleMap)

/-- The frame that stands for an entry point. -/
def strictEnteredAt (fp : Cell) (entry : Option Address) : Strict Frame :=
  match symbols, entry with
  | some map, some a => return ⟨fp, a.toInt32, entry, ← map.strictSymbol a⟩
  | _, _ => return ⟨fp, entry.elim 0 (·.toInt32), entry, none⟩

def strictCloseRun (frames : List Frame) (fp : Cell) (entry : Option Address) :
    Strict (List Frame) :=
  match frames.getLast? with
  | none => return [← strictEnteredAt symbols fp entry]
  | some last =>
    if symbols.isNone ∧ last.entry.isNone then
      return frames.dropLast ++ [{ last with entry := entry }]
    else return frames

def strictOfRun (index : Int32) (ip fp bound : Cell) : Strict Backtrace := do
  let walk := (Walk.start m.image m.registers.stack ip fp).boundedBy bound
  let frames ← (walk.withSymbols (symbols.map SymbolMap.table)).strictFrames symbols
  let origin := if symbols.isNone ∧ i.name ≠ "" then some i.name else none
  return (← strictCloseRun symbols frames fp (m.entryAddress? index)).map (.script · origin)

def strictOfRuns : Cell → Cell → List Call → Strict Backtrace
  | _, _, [] => return []
  | ip, fp, .native _ index :: older =>
    return ofNative m modules index ++ (← strictOfRuns ip fp older)
  | ip, fp, .entry _ index ip' fp' :: older => do
    let run ← strictOfRun m i symbols index ip fp fp'
    return run ++ (← strictOfRuns ip' fp' older)

def strictOfCalls (calls : List Call) : Strict Backtrace :=
  strictOfRuns m i symbols modules m.registers.cip m.registers.frm (innermost calls)

theorem strictCloseRun_eq (frames : List Frame) (fp : Cell) (entry : Option Address) :
    strictCloseRun symbols frames fp entry =
      .ok (closeRun frames fp entry (symbols.map SymbolMap.table)) := by
  unfold strictCloseRun closeRun
  cases frames.getLast? with
  | none => cases symbols <;> cases entry <;> simp [strictEnteredAt, Frame.enteredAt]
  | some last =>
    simp only [Option.isNone_map]
    split <;> rfl

variable {symbols} {i}

theorem strictOfRuns_eq (table : i.symbols = symbols.map SymbolMap.table) (ip fp : Cell)
    (calls : List Call) :
    strictOfRuns m i symbols modules ip fp calls = .ok (ofRuns m i modules ip fp calls) := by
  induction calls generalizing ip fp with
  | nil => rfl
  | cons c older ih =>
    cases c with
    | native owner index => simp only [strictOfRuns, ih, Strict.bind_ok, Strict.pure_eq, ofRuns]
    | entry owner index ip' fp' =>
      have run : strictOfRun m i symbols index ip fp fp' = .ok (ofRun m i index ip fp fp') := by
        rw [strictOfRun, Walk.strictFrames_eq rfl, Strict.bind_ok, strictCloseRun_eq]
        simp [ofRun, table]
      simp only [strictOfRuns, run, ih, Strict.bind_ok, Strict.pure_eq, ofRuns]

theorem strictOfCalls_eq (table : i.symbols = symbols.map SymbolMap.table) (calls : List Call) :
    strictOfCalls m i symbols modules calls = .ok (ofCalls m i modules calls) :=
  strictOfRuns_eq m modules table ..

end Backtrace

namespace Fault

variable (m : Machine)

def strictBoundsDetail : Strict String :=
  let index := m.registers.pri
  if index < 0 then return " Accessing element at negative index " ++ toString index.toInt
  else do
    let bound ← match Cell.plus? m.registers.cip Cell.width with
      | some a => m.image.strictCodeCell a
      | none => pure none
    return " Accessing element at index " ++ toString index.toInt ++ " past array upper bound" ++
      bound.elim "" fun b => " " ++ toString b.toInt

def strictInstructionDetail : Strict String := do
  let address := "0x" ++ Text.upperHex 8 m.registers.cip.toUInt32.toNat
  match ← m.image.strictCodeCell m.registers.cip with
  | some opcode =>
    return " Unknown opcode 0x" ++ Text.hex 1 opcode.toUInt32.toNat ++ " at address " ++ address
  | none => return " Instruction address " ++ address ++ " is outside the code segment"

/-- Only two details read code. -/
def strictDetails (fault : Fault) : Strict (List String) :=
  match fault with
  | bounds => return [← strictBoundsDetail m]
  | invalidInstruction => return [← strictInstructionDetail m]
  | _ => return fault.details m

theorem strictDetails_eq (fault : Fault) : fault.strictDetails m = .ok (fault.details m) := by
  cases fault with
  | bounds =>
    unfold strictDetails strictBoundsDetail details boundsDetail
    by_cases negative : m.registers.pri < 0
    · simp [negative]
    · cases Cell.plus? m.registers.cip Cell.width <;> simp [negative]
  | invalidInstruction =>
    unfold strictDetails strictInstructionDetail details instructionDetail
    cases h : m.image.codeCell m.registers.cip <;> simp [h]
  | _ => rfl

end Fault

/-! ## Locating scripts -/

namespace Locator

/-- The part of a file that lies where the code lies in the image. -/
def strictMatches (i : Image) (bytes : Bytes) : Strict Bool := do
  let code ← i.strictCode
  let stop ← Strict.position i.bytes.size (i.header.code.toNat + code.size)
  return decide (stop ≤ bytes.size ∧ bytes.extract i.header.code.toNat stop = code)

def strictLocate (l : Locator) (files : FileTree) (i : Image) : Strict (Option Path) := do
  if (← i.strictCode).isEmpty then return none
  else
    (l.candidates files).findM? fun p =>
      match files.read? p with
      | some bytes => strictMatches i bytes
      | none => pure false

theorem strictMatches_eq {i : Image} (some : i.code.isEmpty = false)
    (fits : i.bytes.size < UInt64.size) (bytes : Bytes) :
    strictMatches i bytes = .ok (decide (Matches i bytes)) := by
  have inside := i.code_in_bytes some
  have room : i.header.code.toNat + i.code.size < UInt64.size := by omega
  rw [strictMatches, Image.strictCode_eq, Strict.bind_ok, Strict.position, if_pos ⟨inside, room⟩,
    Strict.bind_ok, Strict.pure_eq, Except.ok.injEq, decide_eq_decide, Matches]
  refine ⟨And.right, fun found => ⟨?_, found⟩⟩
  have positive : 0 < i.code.size := by simpa [Array.isEmpty_iff, Array.size_pos_iff] using some
  have size := congrArg Array.size found
  rw [Array.size_extract] at size
  omega

theorem strictLocate_eq (l : Locator) (files : FileTree) {i : Image}
    (fits : i.bytes.size < UInt64.size) :
    l.strictLocate files i = .ok (l.locate? files i) := by
  rw [strictLocate, Image.strictCode_eq, Strict.bind_ok, locate?]
  cases bare : i.code.isEmpty with
  | true => rfl
  | false =>
    have found : (fun p => match files.read? p with
        | some bytes => strictMatches i bytes
        | none => pure false) =
        fun p => pure ((files.read? p).any fun bytes => decide (Matches i bytes)) := by
      funext p
      cases files.read? p with
      | none => rfl
      | some bytes => exact strictMatches_eq bare fits bytes
    simp only [Bool.false_eq_true, if_false, found]
    exact List.findM?_pure ..

end Locator

/-! ## Histories of guards -/

def CallStack.strictDrop (s : CallStack) (g : Guard) : Strict CallStack := do
  return ⟨s.calls.take (← Strict.difference .depth g.depth 1)⟩

namespace History

def strictDrop (h : History) (n : Nat) : Strict History :=
  match h.held? n with
  | some g => return { h.forget n with stack := ← h.stack.strictDrop g }
  | none => return h

def strictStep (h : History) : Step → Strict History
  | .push c => return h.push c
  | .drop n => h.strictDrop n
  | .forget n => return h.forget n

def strictFinish (h : History) : Strict History :=
  (List.range h.guards.length).reverse.foldlM strictDrop h

/-- The history of these steps, with every guard dropped that is left at the end. -/
def strictRun (steps : List Step) : Strict History := do (← steps.foldlM strictStep {}).strictFinish

/-- A guard counts its own call. -/
def Counted (h : History) : Prop := ∀ g, some g ∈ h.guards → 1 ≤ g.depth

variable {h : History}

theorem Counted.push (counted : h.Counted) (c : Call) : (h.push c).Counted := by
  intro g hg
  rcases List.mem_append.mp hg with old | new
  · exact counted g old
  · obtain rfl := Option.some.inj (List.mem_singleton.mp new)
    exact Nat.le_add_left ..

theorem Counted.forget (counted : h.Counted) (n : Nat) : (h.forget n).Counted := by
  intro g hg
  rcases List.mem_or_eq_of_mem_set hg with old | new
  · exact counted g old
  · cases new

theorem Counted.drop (counted : h.Counted) (n : Nat) : (h.drop n).Counted := by
  unfold History.drop
  split
  · exact counted.forget n
  · exact counted

theorem Counted.step (counted : h.Counted) (s : Step) : (h.step s).Counted := by
  cases s with
  | push c => exact counted.push c
  | drop n => exact counted.drop n
  | forget n => exact counted.forget n

theorem strictDrop_eq (counted : h.Counted) (n : Nat) : h.strictDrop n = .ok (h.drop n) := by
  unfold strictDrop drop
  cases held : h.held? n with
  | none => rfl
  | some g =>
    have mem : some g ∈ h.guards := List.mem_of_getElem? (Option.join_eq_some_iff.mp held)
    simp only [CallStack.strictDrop, Strict.difference_of_le (counted g mem), Strict.bind_ok]
    rfl

theorem strictStep_eq (counted : h.Counted) (s : Step) : h.strictStep s = .ok (h.step s) := by
  cases s with
  | drop n => exact strictDrop_eq counted n
  | push c | forget n => rfl

/-- By induction on the steps: every guard that was handed out counts its own call. -/
theorem foldlM_strictStep (counted : h.Counted) (steps : List Step) :
    steps.foldlM strictStep h = .ok (steps.foldl step h) ∧ (steps.foldl step h).Counted := by
  induction steps generalizing h with
  | nil => exact ⟨rfl, counted⟩
  | cons s steps ih =>
    rw [List.foldlM_cons, strictStep_eq counted, Strict.bind_ok]
    exact ih (counted.step s)

theorem foldlM_strictDrop (counted : h.Counted) (ns : List Nat) :
    ns.foldlM strictDrop h = .ok (ns.foldl drop h) := by
  induction ns generalizing h with
  | nil => rfl
  | cons n ns ih =>
    rw [List.foldlM_cons, strictDrop_eq counted, Strict.bind_ok]
    exact ih (counted.drop n)

theorem strictRun_eq (steps : List Step) :
    strictRun steps = .ok (steps.foldl step {}).finish := by
  obtain ⟨ran, counted⟩ := foldlM_strictStep (h := {}) nofun steps
  rw [strictRun, ran]
  exact foldlM_strictDrop counted _

end History

/-- **Diagnostics stay in range.** Whatever image, header, registers, symbols and calls a machine
leaves, and in whatever order guards are dropped or lost: with every step strict, walks, backtraces,
details, lookups of symbols, the search for the script and the calls' ends all give what they give
without checks. An image is smaller than the memory of its host. -/
theorem diagnostics_in_range (m : Machine) (fits : m.image.bytes.size < UInt64.size)
    (i : Instance) (symbols : Option SymbolMap) (modules : ModuleMap) (calls : List Call) (w : Walk)
    (fault : Fault) (l : Locator) (files : FileTree) (steps : List History.Step) :
    let known : Instance := { i with symbols := symbols.map SymbolMap.table }
    let walk := w.withSymbols (symbols.map SymbolMap.table)
    walk.strictFrames symbols = .ok walk.frames ∧
      Backtrace.strictOfCalls m known symbols modules calls = .ok (.ofCalls m known modules calls) ∧
      fault.strictDetails m = .ok (fault.details m) ∧
      (∀ map ∈ symbols, ∀ a, map.strictEntry a = .ok (map.table.entry a) ∧
        map.strictSymbol a = .ok (map.table.symbol? a)) ∧
      l.strictLocate files m.image = .ok (l.locate? files m.image) ∧
      History.strictRun steps = .ok (steps.foldl History.step {}).finish := by
  intro known walk
  refine ⟨Walk.strictFrames_eq rfl, Backtrace.strictOfCalls_eq m modules rfl calls,
    fault.strictDetails_eq m, ?_, l.strictLocate_eq files fits, History.strictRun_eq steps⟩
  intro map _ a
  exact ⟨map.strictEntry_eq a, map.strictSymbol_eq a⟩

/-- A machine of which nothing is where it should be: the header puts the data before the code, and
the code beyond the image. -/
def wreck : Machine where
  handle := 1
  image := ⟨⟨UInt64.ofNat (UInt64.size - 1), 8⟩, Array.replicate 40 0xFF⟩
  registers := ⟨-2147483648, 2147483647, -2147483648, 0, 0, 2147483647, 0⟩

theorem diagnostics_in_range_wreck :
    let i : Instance := ⟨0, none, none, none⟩
    let symbols : SymbolMap := .ofRows [⟨"f", 8, 4⟩, ⟨"g", 0, 4294967295⟩] []
    let known : Instance := { i with symbols := some symbols.table }
    let calls : List Call := [.entry 1 0 (-1) (-8), .native 1 (-5), .entry 1 (-1) 4 2147483640]
    wreck.image.bytes.size < UInt64.size ∧
      Backtrace.strictOfCalls wreck known (some symbols) (fun _ => none) calls =
        .ok (.ofCalls wreck known (fun _ => none) calls) ∧
      Fault.invalidInstruction.strictDetails wreck =
        .ok [" Instruction address 0x80000000 is outside the code segment"] ∧
      History.strictRun [.push (.native 1 0), .push (.native 2 0), .drop 0, .forget 1, .drop 0] =
        .ok ⟨⟨[]⟩, [none, none]⟩ := by
  intro i symbols known calls
  have fits : wreck.image.bytes.size < UInt64.size := by decide +kernel
  obtain ⟨_, backtrace, details, _, _, ran⟩ := diagnostics_in_range wreck fits i (some symbols)
    (fun _ => none) calls (.start wreck.image wreck.registers.stack 0 0) .invalidInstruction
    ⟨[], "amx"⟩ {} [.push (.native 1 0), .push (.native 2 0), .drop 0, .forget 1, .drop 0]
  refine ⟨fits, backtrace, ?_, ?_⟩
  · rw [details]
    decide +kernel
  · rw [ran]
    decide +kernel

end Postmortem
