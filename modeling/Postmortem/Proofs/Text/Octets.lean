import Mathlib.Data.List.Basic

/-!
# The octets of a text

A text is stored in UTF-8. The first octet of a character tells how many follow, and the more
follow, the greater it is.

* `octets_le_iff`: two texts are in the order of their octets.
* `zero_mem_octets_iff`: a null octet stands for a null character and for nothing else.
-/

namespace Postmortem.Text

open String (utf8EncodeChar)

/-- The octets that a text is stored as. -/
def octets (s : String) : List UInt8 := s.toUTF8.data.toList

theorem octets_eq (s : String) : octets s = s.toList.flatMap utf8EncodeChar := by
  conv_lhs => rw [← String.ofList_toList (s := s)]
  rw [octets, String.toUTF8_eq_toByteArray, String.toByteArray_ofList]
  exact List.toList_data_toByteArray

theorem octets_inj {s t : String} : octets s = octets t ↔ s = t := by
  constructor
  · intro same
    rw [← String.toByteArray_inj]
    exact ByteArray.ext (Array.toList_inj.mp same)
  · rintro rfl
    rfl

/-- A text is read from the octets that it is stored as, and from no others. -/
theorem fromUTF8?_eq_some_iff {bytes : Array UInt8} {s : String} :
    String.fromUTF8? ⟨bytes⟩ = some s ↔ bytes.toList = octets s := by
  have stored : octets s = s.toByteArray.data.toList := rfl
  rw [stored, Array.toList_inj]
  unfold String.fromUTF8?
  constructor
  · intro read
    split at read
    case isTrue =>
      cases read
      rfl
    case isFalse => cases read
  · rintro rfl
    exact dif_pos s.isValidUTF8

theorem codePoint_lt (c : Char) : c.val.toNat < 0x110000 := by
  have valid := c.valid
  simp only [UInt32.isValidChar, Nat.isValidChar] at valid
  omega

/-! ## Order -/

/-- The first octet in which two characters differ decides, whatever comes after them. -/
theorem encode_lt {c d : Char} (less : c < d) (after after' : List UInt8) :
    utf8EncodeChar c ++ after < utf8EncodeChar d ++ after' := by
  have below : c.val.toNat < d.val.toNat := less
  have valid := codePoint_lt d
  have digits (n : Nat) : n / 4096 = n / 64 / 64 ∧ n / 262144 = n / 64 / 64 / 64 := by
    simp only [Nat.div_div_eq_div_mul, and_self]
  obtain ⟨two, three⟩ := digits c.val.toNat
  obtain ⟨two', three'⟩ := digits d.val.toNat
  unfold utf8EncodeChar
  dsimp only
  -- One case for each two lengths. Of one length they differ in a digit to the base 64.
  split_ifs
  all_goals
    simp only [List.cons_append, List.nil_append, List.cons_lt_cons_iff, UInt8.lt_iff_toNat_lt,
      ← UInt8.toNat_inj, UInt8.toNat_ofNat']
    simp (disch := omega) only [Nat.mod_eq_of_lt]
    omega

theorem octets_lt {s t : String} (less : s < t) : octets s < octets t := by
  rw [octets_eq, octets_eq]
  have lex : List.Lex (· < ·) s.toList t.toList := less
  generalize s.toList = cs, t.toList = ds at lex
  induction lex with
  | @nil d ds =>
    obtain ⟨octet, rest, encoded⟩ :=
      List.exists_cons_of_ne_nil (String.utf8EncodeChar_ne_nil (c := d))
    rw [List.flatMap_nil, List.flatMap_cons, encoded]
    exact .nil
  | rel differ =>
    rw [List.flatMap_cons, List.flatMap_cons]
    exact encode_lt differ _ _
  | cons _ ih =>
    rw [List.flatMap_cons, List.flatMap_cons]
    exact List.append_left_lt ih

/-- Texts are in the order of their octets. -/
theorem octets_le_iff {s t : String} : octets s ≤ octets t ↔ s ≤ t := by
  constructor
  · intro le
    apply String.not_lt.mp
    intro less
    exact List.not_lt.mpr le (octets_lt less)
  · intro le
    by_cases same : s = t
    · rw [same]
      exact List.le_refl _
    · have less : s < t := String.not_le.mp fun ge => same (String.le_antisymm le ge)
      exact List.le_of_lt (octets_lt less)

/-! ## Null octets -/

theorem zero_mem_encode_iff {c : Char} : 0 ∈ utf8EncodeChar c ↔ c = '\x00' := by
  constructor
  · intro null
    have valid := codePoint_lt c
    have value : c.val.toNat = 0 := by
      revert null
      unfold utf8EncodeChar
      dsimp only
      split_ifs
      all_goals
        simp only [List.mem_cons, List.not_mem_nil, or_false, ← UInt8.toNat_inj,
          UInt8.toNat_ofNat', UInt8.toNat_zero]
        omega
    exact Char.ext (UInt32.toNat_inj.mp value)
  · rintro rfl
    decide

theorem zero_mem_octets_iff {s : String} : 0 ∈ octets s ↔ '\x00' ∈ s.toList := by
  rw [octets_eq, List.mem_flatMap]
  simp only [zero_mem_encode_iff, exists_eq_right]

end Postmortem.Text
