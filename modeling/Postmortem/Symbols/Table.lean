import Postmortem.Cell
import Postmortem.Json.Document

/-!
# Symbols

What a symbol table answers about a code address, and the table that a list of function ranges
and a list of line rows make.

* `SymbolTable` is any service that answers the three questions a frame asks.
* `SymbolMap.table` answers them from ranges and rows: the narrowest range around an address, and
  the last row at or below it.
-/

namespace Postmortem

structure Location where
  file : String
  line : UInt32
  deriving DecidableEq, Repr

/-- Answers for one script. -/
structure SymbolTable where
  function? : Address → Option String
  location? : Address → Option Location
  /-- Where the function around an address starts; the address itself when there is none. -/
  entry : Address → Address

/-- A function and the code from `start` up to, but without, `stop`. -/
structure FunctionRange where
  name : String
  start : Address
  stop : Address
  deriving DecidableEq, Repr

/-- Code from `address` on comes from this line, up to the next row. -/
structure LineRow where
  address : Address
  file : String
  line : UInt32
  deriving DecidableEq, Repr

namespace FunctionRange

def Covers (f : FunctionRange) (a : Address) : Prop := f.start ≤ a ∧ a < f.stop

instance (f : FunctionRange) (a : Address) : Decidable (f.Covers a) :=
  inferInstanceAs (Decidable (_ ∧ _))

def width (f : FunctionRange) : Nat := f.stop.toNat - f.start.toNat

/-- The first of the narrowest ranges. -/
def narrowest : List FunctionRange → Option FunctionRange
  | [] => none
  | f :: rest =>
    match narrowest rest with
    | some g => if g.width < f.width then some g else some f
    | none => some f

end FunctionRange

namespace LineRow

def location (r : LineRow) : Location := ⟨r.file, r.line⟩

/-- Rows by address; rows with one address keep their order. -/
def sorted (rows : List LineRow) : List LineRow :=
  rows.mergeSort fun r s => decide (r.address ≤ s.address)

theorem address_trans (r s t : LineRow) (h : decide (r.address ≤ s.address))
    (h' : decide (s.address ≤ t.address)) : decide (r.address ≤ t.address) := by
  simp only [decide_eq_true_eq] at h h' ⊢
  exact UInt32.le_trans h h'

theorem address_total (r s : LineRow) :
    decide (r.address ≤ s.address) || decide (s.address ≤ r.address) := by
  simp only [Bool.or_eq_true, decide_eq_true_eq]
  exact UInt32.le_total ..

theorem pairwise_sorted (rows : List LineRow) :
    (sorted rows).Pairwise fun r s => r.address ≤ s.address :=
  (List.pairwise_mergeSort address_trans address_total rows).imp (by simp)

end LineRow

structure SymbolMap where
  functions : List FunctionRange
  lines : List LineRow
  /-- A lookup stops at the first row above its address. -/
  ascending : lines.Pairwise fun r s => r.address ≤ s.address

namespace SymbolMap

/-- The map of these ranges and rows. Rows may come in any order. -/
def ofRows (functions : List FunctionRange) (rows : List LineRow) : SymbolMap :=
  ⟨functions, LineRow.sorted rows, LineRow.pairwise_sorted rows⟩

def enclosing? (m : SymbolMap) (a : Address) : Option FunctionRange :=
  FunctionRange.narrowest (m.functions.filter (·.Covers a))

def row? (m : SymbolMap) (a : Address) : Option LineRow :=
  (m.lines.takeWhile (·.address ≤ a)).getLast?

def table (m : SymbolMap) : SymbolTable where
  function? a := (m.enclosing? a).map (·.name)
  location? a := (m.row? a).map (·.location)
  entry a := (m.enclosing? a).elim a (·.start)

end SymbolMap

instance : Document Location where
  toJson l := .record [("file", Document.toJson l.file), ("line", Document.toJson l.line)]
  ofJson v := do
    let fs ← v.fields ["file", "line"]
    return ⟨← fs.required "file", ← fs.required "line"⟩

instance : Document FunctionRange where
  toJson f := .record
    [("name", Document.toJson f.name), ("start", Document.toJson f.start),
     ("end", Document.toJson f.stop)]
  ofJson v := do
    let fs ← v.fields ["name", "start", "end"]
    return ⟨← fs.required "name", ← fs.required "start", ← fs.required "end"⟩

instance : Document LineRow where
  toJson r := .record
    [("address", Document.toJson r.address), ("file", Document.toJson r.file),
     ("line", Document.toJson r.line)]
  ofJson v := do
    let fs ← v.fields ["address", "file", "line"]
    return ⟨← fs.required "address", ← fs.required "file", ← fs.required "line"⟩

/-- Rows are sorted as they are read. A map without ranges or without rows may leave them out. -/
instance : Document SymbolMap where
  toJson m := .record
    [("functions", Document.toJson m.functions), ("lines", Document.toJson m.lines)]
  ofJson v := do
    let fs ← v.fields ["functions", "lines"]
    return .ofRows (← fs.optional "functions" []) (← fs.optional "lines" [])

end Postmortem
