/-!
# Blanks

Characters with the Unicode property `White_Space`, and the cutting of text at them.
-/

namespace Postmortem.Text

def IsBlank (c : Char) : Prop :=
  (0x9 ≤ c.toNat ∧ c.toNat ≤ 0xD) ∨ c.toNat = 0x20 ∨ c.toNat = 0x85 ∨ c.toNat = 0xA0 ∨
  c.toNat = 0x1680 ∨ (0x2000 ≤ c.toNat ∧ c.toNat ≤ 0x200A) ∨ c.toNat = 0x2028 ∨
  c.toNat = 0x2029 ∨ c.toNat = 0x202F ∨ c.toNat = 0x205F ∨ c.toNat = 0x3000

instance : DecidablePred IsBlank := fun _ => inferInstanceAs (Decidable (_ ∨ _))

def trimLeft (cs : List Char) : List Char := cs.dropWhile (IsBlank ·)

/-- The text without the blanks at its two ends. -/
def trim (cs : List Char) : List Char := (trimLeft (trimLeft cs).reverse).reverse

/-- The pieces between blanks, without the empty ones. -/
def words (cs : List Char) : List (List Char) := (cs.splitOnP (IsBlank ·)).filter (!·.isEmpty)

/-- The text up to the first blank, and the text after that blank. -/
def splitFirst (cs : List Char) : List Char × List Char :=
  (cs.takeWhile (¬IsBlank ·), (cs.dropWhile (¬IsBlank ·)).drop 1)

end Postmortem.Text
