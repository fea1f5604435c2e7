/-!
# Faults

The failures a script machine reports, each with the status it is reported under and its wording.

* `Fault.ofStatus?` reads a status, `Fault.status` writes it back.
* A status outside the catalogue is kept as `Fault.unknown`; 14 and 15 are gaps of the catalogue.
-/

namespace Postmortem

inductive Fault where
  | exit
  | assertion
  | collision
  | bounds
  | memoryAccess
  | invalidInstruction
  | stackUnderflow
  | heapUnderflow
  | noCallback
  | nativeFailed
  | divideByZero
  | sleeping
  | invalidState
  | outOfMemory
  | badFormat
  | newerVersion
  | notFound
  | badEntryPoint
  | noDebugger
  | notInitialised
  | userDataFull
  | noCompiler
  | badParameter
  | domain
  | general
  | unknown (status : Int32)
  deriving DecidableEq, Repr

namespace Fault

/-- Status zero is success and names no fault. -/
def ofStatus? (status : Int32) : Option Fault :=
  match status.toInt with
  | 0 => none
  | 1 => some exit
  | 2 => some assertion
  | 3 => some collision
  | 4 => some bounds
  | 5 => some memoryAccess
  | 6 => some invalidInstruction
  | 7 => some stackUnderflow
  | 8 => some heapUnderflow
  | 9 => some noCallback
  | 10 => some nativeFailed
  | 11 => some divideByZero
  | 12 => some sleeping
  | 13 => some invalidState
  | 16 => some outOfMemory
  | 17 => some badFormat
  | 18 => some newerVersion
  | 19 => some notFound
  | 20 => some badEntryPoint
  | 21 => some noDebugger
  | 22 => some notInitialised
  | 23 => some userDataFull
  | 24 => some noCompiler
  | 25 => some badParameter
  | 26 => some domain
  | 27 => some general
  | _ => some (unknown status)

def status : Fault → Int32
  | exit => 1
  | assertion => 2
  | collision => 3
  | bounds => 4
  | memoryAccess => 5
  | invalidInstruction => 6
  | stackUnderflow => 7
  | heapUnderflow => 8
  | noCallback => 9
  | nativeFailed => 10
  | divideByZero => 11
  | sleeping => 12
  | invalidState => 13
  | outOfMemory => 16
  | badFormat => 17
  | newerVersion => 18
  | notFound => 19
  | badEntryPoint => 20
  | noDebugger => 21
  | notInitialised => 22
  | userDataFull => 23
  | noCompiler => 24
  | badParameter => 25
  | domain => 26
  | general => 27
  | unknown status => status

def text : Fault → String
  | exit => "Forced exit"
  | assertion => "Assertion failed"
  | collision => "Stack/heap collision (insufficient stack size)"
  | bounds => "Array index out of bounds"
  | memoryAccess => "Invalid memory access"
  | invalidInstruction => "Invalid instruction"
  | stackUnderflow => "Stack underflow"
  | heapUnderflow => "Heap underflow"
  | noCallback => "No (valid) native function callback"
  | nativeFailed => "Native function failed"
  | divideByZero => "Divide by zero"
  | sleeping => "(sleep mode)"
  | invalidState => "Invalid state"
  | outOfMemory => "Out of memory"
  | badFormat => "Invalid/unsupported P-code file format"
  | newerVersion => "File is for a newer version of the AMX"
  | notFound => "File or function is not found"
  | badEntryPoint => "Invalid index parameter (bad entry point)"
  | noDebugger => "Debugger cannot run"
  | notInitialised => "AMX not initialized (or doubly initialized)"
  | userDataFull => "Unable to set user data field (table full)"
  | noCompiler => "Cannot initialize the JIT"
  | badParameter => "Parameter error"
  | domain => "Domain error, expression result does not fit in range"
  | general => "General error (unknown or unspecific error)"
  | unknown _ => "Unknown error"

/-- Faults of lookup and start-up arise before any script frame exists, so a walk would show
noise. -/
def wantsBacktrace : Fault → Bool
  | notFound | badEntryPoint | noCallback | notInitialised => false
  | _ => true

/-- First line of the report of a fault. -/
def headline (fault : Fault) : String :=
  "Run time error " ++ toString fault.status.toInt ++ ": \"" ++ fault.text ++ "\""

/-- A debugger detaches from a script by entering it at an index that does not exist.
Only that failure, at the agreed index, is no real fault. -/
def isDetach (fault : Fault) (index : Int32) (sentinel : Option Int32) : Bool :=
  fault = badEntryPoint && sentinel = some index

end Fault

/-- What a call hands back. -/
inductive Outcome where
  | returned (value : Int32)
  | failed (fault : Fault)
  deriving DecidableEq, Repr

namespace Outcome

def ofStatus (status : Int32) : Outcome :=
  (Fault.ofStatus? status).elim (returned 0) failed

end Outcome

end Postmortem
