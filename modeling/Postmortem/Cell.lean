/-!
# Cells

The words of a script machine. A cell is signed; a code address is the same word read as unsigned.
Sums that leave the word are refused, so that a broken register never names a wrapped address.
-/

namespace Postmortem

abbrev Cell := Int32

/-- Offset into a code segment. -/
abbrev Address := UInt32

namespace Cell

/-- Bytes in a cell. -/
def width : Nat := 4

def ofInt? (n : Int) : Option Cell :=
  if -2147483648 ≤ n ∧ n ≤ 2147483647 then some (Int32.ofInt n) else none

/-- The cell `n` further on, if it is still a cell. -/
def plus? (a : Cell) (n : Int) : Option Cell := ofInt? (a.toInt + n)

/-- The cell stored in four bytes, lowest first. -/
def ofBytes (a b c d : UInt8) : Cell :=
  (UInt32.ofNat (a.toNat + 256 * (b.toNat + 256 * (c.toNat + 256 * d.toNat)))).toInt32

/-- The four bytes of a cell, lowest first. -/
def toBytes (c : Cell) : List UInt8 :=
  let n := c.toUInt32.toNat
  [n.toUInt8, (n / 256).toUInt8, (n / 65536).toUInt8, (n / 16777216).toUInt8]

end Cell

end Postmortem
