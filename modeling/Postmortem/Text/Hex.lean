/-!
# Hexadecimal numerals

A numeral is padded with zeros on the left to a least width and never cut.
-/

namespace Postmortem.Text

/-- Lower-case digits, at least `width` of them. -/
def hex (width : Nat) (n : Nat) : String :=
  let digits := Nat.toDigits 16 n
  String.ofList (List.replicate (width - digits.length) '0' ++ digits)

/-- Upper-case digits, at least `width` of them. -/
def upperHex (width : Nat) (n : Nat) : String := (hex width n).map Char.toUpper

end Postmortem.Text
