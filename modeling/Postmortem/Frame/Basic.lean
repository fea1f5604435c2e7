import Postmortem.Symbols.Table
import Postmortem.Text.Hex

/-!
# Frames

One activation of a script function: where its frame lies and where it resumes, with what is known
of the function itself.

* `Frame.resumingAt` is a frame found on the stack.
* `Frame.enteredAt` stands for an entry point that had no frame yet.
* `Frame.text` is the line a backtrace shows for it.
-/

namespace Postmortem

/-- What a symbol table says about a frame. -/
structure FrameSymbol where
  function : String
  location : Option Location
  deriving DecidableEq, Repr

structure Frame where
  /-- Where the frame lies in the data. -/
  base : Cell
  /-- Where its function goes on in the code. -/
  resume : Cell
  /-- Where its function starts, if that is known. -/
  entry : Option Address
  symbol : Option FrameSymbol
  deriving DecidableEq, Repr

namespace SymbolTable

def symbol? (t : SymbolTable) (a : Address) : Option FrameSymbol :=
  (t.function? a).map fun f => ⟨f, t.location? a⟩

end SymbolTable

namespace Frame

def resumingAt (base resume : Cell) (symbols : Option SymbolTable) : Frame where
  base := base
  resume := resume
  entry := symbols.map (·.entry resume.toUInt32)
  symbol := symbols.bind (·.symbol? resume.toUInt32)

def enteredAt (base : Cell) (entry : Option Address) (symbols : Option SymbolTable) : Frame where
  base := base
  resume := entry.elim 0 (·.toInt32)
  entry := entry
  symbol := entry.bind fun a => symbols.bind (·.symbol? a)

/-- Without a symbol the start of the function stands for its name. -/
def text (f : Frame) : String :=
  Text.hex 8 f.resume.toUInt32.toNat ++ " in " ++
    match f.symbol, f.entry with
    | some ⟨function, some l⟩, _ =>
      function ++ " () at " ++ l.file ++ ":" ++ toString l.line.toNat
    | some ⟨function, none⟩, _ => function ++ " ()"
    | none, some entry => Text.hex 8 entry.toNat ++ " ()"
    | none, none => "?? ()"

end Frame

end Postmortem
