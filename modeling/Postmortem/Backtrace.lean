import Postmortem.CallStack.Basic
import Postmortem.Frame.Walk
import Postmortem.Registry
import Postmortem.Unwind

/-!
# Script backtraces

The frames of a script and the natives it ran, innermost first. The machine knows only the frames
of its current run. Where the host ran an entry point while the script was in a native, the call
tells where the interrupted run goes on, and the walk goes on there.

* `Backtrace.ofCalls` is the backtrace of the machine that owns the innermost open call. It ends
  at the first call of another machine.
-/

namespace Postmortem

inductive TraceEntry where
  | native (name : String) (address : UInt64) (file : Option String)
  /-- `origin` names the script of a frame when no symbols do. -/
  | script (frame : Frame) (origin : Option String)
  deriving DecidableEq, Repr

namespace TraceEntry

def text : TraceEntry → String
  | native name address file =>
    "native " ++ name ++ " () [" ++ Text.hex 8 address.toNat ++ "]" ++ file.elim "" (" from " ++ ·)
  | script frame origin => frame.text ++ origin.elim "" (" from " ++ ·)

end TraceEntry

abbrev Backtrace := List TraceEntry

namespace Backtrace

/-- Nothing is shown for a native that the machine does not have. -/
def ofNative (m : Machine) (modules : ModuleMap) (index : Int32) : Backtrace :=
  match m.native? index with
  | some n => if n.IsResolved then [.native n.name n.address (modules.name? n.address)] else []
  | none => []

/-- The frames of one run of a script, outermost last. Where nothing else says which function the
outermost frame belongs to, it is the entry point; a run without frames was about to make one. -/
def closeRun (frames : List Frame) (fp : Cell) (entry : Option Address)
    (symbols : Option SymbolTable) : List Frame :=
  match frames.getLast? with
  | none => [.enteredAt fp entry symbols]
  | some last =>
    if symbols.isNone ∧ last.entry.isNone then frames.dropLast ++ [{ last with entry := entry }]
    else frames

/-- The run that an entry point began, when it has come to `ip` in the frame at `fp`. Frames from
`bound` on belong to the run it interrupted. -/
def ofRun (m : Machine) (i : Instance) (index : Int32) (ip fp bound : Cell) : Backtrace :=
  let walk := ((Walk.start m.image m.registers.stack ip fp).boundedBy bound).withSymbols i.symbols
  let origin := if i.symbols.isNone ∧ i.name ≠ "" then some i.name else none
  (closeRun walk.frames fp (m.entryAddress? index) i.symbols).map (.script · origin)

/-- The calls of one machine, newest first, when it has come to `ip` in the frame at `fp`. -/
def ofRuns (m : Machine) (i : Instance) (modules : ModuleMap) :
    Cell → Cell → List Call → Backtrace
  | _, _, [] => []
  | ip, fp, .native _ index :: older => ofNative m modules index ++ ofRuns m i modules ip fp older
  | ip, fp, .entry _ index ip' fp' :: older =>
    ofRun m i index ip fp fp' ++ ofRuns m i modules ip' fp' older

/-- The calls of the machine that owns the last one, newest first, down to the first of another. -/
def innermost (calls : List Call) : List Call :=
  match calls.getLast? with
  | some top => calls.reverse.takeWhile (·.owner = top.owner)
  | none => []

/-- The backtrace for the open calls, oldest first, of which the last is a call of machine `m`. -/
def ofCalls (m : Machine) (i : Instance) (modules : ModuleMap) (calls : List Call) : Backtrace :=
  ofRuns m i modules m.registers.cip m.registers.frm (innermost calls)

/-- Lines numbered from zero. -/
def numbered (texts : List String) : List String :=
  texts.zipIdx.map fun p => "#" ++ toString p.2 ++ " " ++ p.1

/-- An empty backtrace is not mentioned. -/
def lines (b : Backtrace) : List String :=
  if b.isEmpty then [] else "Script backtrace:" :: numbered (b.map TraceEntry.text)

def systemLines (frames : List HostFrame) : List String :=
  "System backtrace:" :: numbered (frames.map HostFrame.text)

end Backtrace

end Postmortem
