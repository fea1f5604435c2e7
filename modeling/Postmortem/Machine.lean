import Postmortem.Image
import Postmortem.Registers
import Postmortem.Text.Hex

/-!
# Script machines

The view a host gives of one of its script machines. Natives are host functions that scripts may
call, entry points are script functions that the host may run.
-/

namespace Postmortem

/-- What a host knows a machine by. -/
abbrev Handle := UInt64

def Handle.text (h : Handle) : String := "0x" ++ Text.hex 1 h.toNat

structure Native where
  name : String
  /-- Where the host function lies, zero while there is none. -/
  address : UInt64
  deriving DecidableEq, Repr

def Native.IsResolved (n : Native) : Prop := n.address ≠ 0

instance (n : Native) : Decidable n.IsResolved := inferInstanceAs (Decidable (n.address ≠ 0))

structure EntryPoint where
  name : String
  address : Address
  deriving DecidableEq, Repr

structure Machine where
  handle : Handle
  image : Image
  registers : Registers
  natives : List Native := []
  entries : List EntryPoint := []
  /-- Where the script's main function starts. -/
  main : Option Address := none
  /-- The image says that symbols exist. -/
  debugInfo : Bool := false
  /-- The handler that runs natives for the machine, by its name. -/
  handler : Option String := none
  deriving DecidableEq, Repr

namespace Machine

def native? (m : Machine) (index : Int32) : Option Native :=
  if 0 ≤ index then m.natives[index.toInt.toNat]? else none

/-- Index of the main function. -/
def mainIndex : Int32 := -1

def entryAddress? (m : Machine) (index : Int32) : Option Address :=
  if index = mainIndex then m.main
  else if 0 ≤ index then m.entries[index.toInt.toNat]?.map (·.address)
  else none

end Machine

end Postmortem
