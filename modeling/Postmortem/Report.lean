import Postmortem.Fault
import Postmortem.Machine

/-!
# Reports

What a fault report says beyond its headline, and the lines a host collects.

* `Fault.details` tells what the state of the machine shows about a fault.
* `Log` puts a marker in front of every line.
-/

namespace Postmortem

/-- A register in upper-case digits. -/
def Cell.shown (c : Cell) : String := "0x" ++ Text.upperHex 1 c.toUInt32.toNat

namespace Fault

/-- The bound follows the instruction that checks it, where the code can be read. -/
def boundsDetail (m : Machine) : String :=
  let index := m.registers.pri
  if index < 0 then " Accessing element at negative index " ++ toString index.toInt
  else
    let bound := (Cell.plus? m.registers.cip Cell.width).bind m.image.codeCell
    " Accessing element at index " ++ toString index.toInt ++ " past array upper bound" ++
      bound.elim "" fun b => " " ++ toString b.toInt

def instructionDetail (m : Machine) : String :=
  let address := "0x" ++ Text.upperHex 8 m.registers.cip.toUInt32.toNat
  match m.image.codeCell m.registers.cip with
  | some opcode =>
    " Unknown opcode 0x" ++ Text.hex 1 opcode.toUInt32.toNat ++ " at address " ++ address
  | none => " Instruction address " ++ address ++ " is outside the code segment"

def details (fault : Fault) (m : Machine) : List String :=
  let r := m.registers
  match fault with
  | bounds => [boundsDetail m]
  | notFound => (m.natives.filter (¬·.IsResolved)).map (" " ++ ·.name)
  | collision =>
    [" Stack pointer (STK) is " ++ r.stk.shown ++ ", heap pointer (HEA) is " ++ r.hea.shown]
  | stackUnderflow =>
    [" Stack pointer (STK) is " ++ r.stk.shown ++ ", stack top (STP) is " ++ r.stp.shown]
  | heapUnderflow =>
    [" Heap pointer (HEA) is " ++ r.hea.shown ++ ", heap bottom (HLW) is " ++ r.hlw.shown]
  | invalidInstruction => [instructionDetail m]
  | _ => []

end Fault

structure Log where
  marker : String
  lines : List String := []
  deriving DecidableEq, Repr

namespace Log

def line (l : Log) (text : String) : Log := { l with lines := l.lines ++ [l.marker ++ text] }

def clear (l : Log) : Log := { l with lines := [] }

/-- Whether `part` occurs in `cs`. -/
def occurs (part : List Char) : List Char → Bool
  | [] => part.isEmpty
  | c :: cs => part.isPrefixOf (c :: cs) || occurs part cs

/-- Whether some line has this text in it. -/
def contains (l : Log) (text : String) : Bool :=
  l.lines.any fun line => occurs text.toList line.toList

end Log

end Postmortem
