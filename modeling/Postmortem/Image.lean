import Postmortem.Cell
import Postmortem.Json.Document

/-!
# Memory images

The memory of a script machine as diagnostics see it: bytes and the two segment offsets of its
header. Nothing about the header is trusted. A read outside its segment gives `none`.

* `Image.code` is the code segment, empty for a malformed header.
* `Image.codeCell` and `Image.dataCell` read one cell.
-/

namespace Postmortem

abbrev Bytes := Array UInt8

structure Header where
  /-- Where the code starts in the image. -/
  code : UInt64
  /-- Where the data, the heap and the stack start in the image. -/
  data : UInt64
  deriving DecidableEq, Repr

instance : Document Header where
  toJson h := .record
    [("code_offset", Document.toJson h.code), ("data_offset", Document.toJson h.data)]
  ofJson v := do
    let fs ← v.fields ["code_offset", "data_offset"]
    return ⟨← fs.required "code_offset", ← fs.required "data_offset"⟩

structure Image where
  header : Header
  bytes : Bytes
  deriving DecidableEq, Repr

namespace Image

def codeStart (i : Image) : Nat := min i.header.code.toNat i.bytes.size

/-- The data offset ends the code, unless it lies before the code or beyond the image. -/
def codeEnd (i : Image) : Nat := max i.codeStart (min i.header.data.toNat i.bytes.size)

def code (i : Image) : Bytes := i.bytes.extract i.codeStart i.codeEnd

def cellAt (i : Image) (offset : Nat) : Option Cell := do
  let a ← i.bytes[offset]?
  let b ← i.bytes[offset + 1]?
  let c ← i.bytes[offset + 2]?
  let d ← i.bytes[offset + 3]?
  return Cell.ofBytes a b c d

def codeCell (i : Image) (a : Cell) : Option Cell :=
  if 0 ≤ a.toInt ∧ i.codeStart + a.toInt.toNat + Cell.width ≤ i.codeEnd then
    i.cellAt (i.codeStart + a.toInt.toNat)
  else none

def dataCell (i : Image) (a : Cell) : Option Cell :=
  if 0 ≤ a.toInt then i.cellAt (i.header.data.toNat + a.toInt.toNat) else none

/-- The image with `bytes` laid over it from `offset` on; what would lie beyond its end is
dropped. -/
def overlay (i : Image) (offset : Nat) (bytes : List UInt8) : Image :=
  { i with bytes := (bytes.zipIdx offset).foldl (fun all p => all.setIfInBounds p.2 p.1) i.bytes }

/-- The image with a cell written at offset `a` of the data. -/
def setData (i : Image) (a : Nat) (c : Cell) : Image :=
  i.overlay (i.header.data.toNat + a) c.toBytes

/-- The image with a cell written at offset `a` of the code. -/
def setCode (i : Image) (a : Nat) (c : Cell) : Image :=
  i.overlay (i.header.code.toNat + a) c.toBytes

end Image

end Postmortem
