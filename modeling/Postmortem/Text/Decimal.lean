/-!
# Decimal numerals

Reading an integer in decimal: digits `0` to `9`, at least one of them, behind an optional sign.
-/

namespace Postmortem.Text

def digit? (c : Char) : Option Nat :=
  if '0' ≤ c ∧ c ≤ '9' then some (c.toNat - 48) else none

/-- The number whose digits follow those of `n`. -/
def appendDigits (n : Nat) : List Char → Option Nat
  | [] => some n
  | c :: cs => do appendDigits (10 * n + (← digit? c)) cs

def natural? (cs : List Char) : Option Nat :=
  if cs.isEmpty then none else appendDigits 0 cs

/-- A plus sign is always allowed. -/
def unsigned? : List Char → Option Nat
  | '+' :: cs => natural? cs
  | cs => natural? cs

def signed? : List Char → Option Int
  | '-' :: cs => (natural? cs).map fun n => -(n : Int)
  | cs => (unsigned? cs).map Int.ofNat

end Postmortem.Text
