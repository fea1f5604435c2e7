import Mathlib.Data.List.Basic
import Mathlib.Data.List.Induction
import Postmortem.Text.Decimal

/-!
# Numerals

The texts from which an integer is read, and which one it is: digits with the number that they have
in decimal, zeros in front or not, and a sign in front of them or none.

* `Text.Numeral` and `Text.natural?_eq_some_iff`: natural numbers.
* `Text.Decimal` and `Text.signed?_eq_some_iff`: integers.
* `Text.decimal_toString`: an integer as it is written is one of its texts.
-/

namespace Postmortem.Text

/-- The digits of a natural number, with zeros in front or not. -/
inductive Numeral : Nat → List Char → Prop
  | digit {d : Nat} (low : d < 10) : Numeral d [d.digitChar]
  | more {n d : Nat} {cs : List Char} (front : Numeral n cs) (low : d < 10) :
      Numeral (10 * n + d) (cs ++ [d.digitChar])

/-- An integer in decimal. A plus sign may be there or not. -/
inductive Decimal : Int → List Char → Prop
  | bare {n : Nat} {cs : List Char} (numeral : Numeral n cs) : Decimal n cs
  | plus {n : Nat} {cs : List Char} (numeral : Numeral n cs) : Decimal n ('+' :: cs)
  | minus {n : Nat} {cs : List Char} (numeral : Numeral n cs) : Decimal (-n) ('-' :: cs)

variable {cs : List Char} {n d : Nat} {c : Char}

theorem digit?_eq_some_iff : digit? c = some d ↔ d < 10 ∧ c = d.digitChar := by
  have digit : digit? c = if 48 ≤ c.toNat ∧ c.toNat ≤ 57 then some (c.toNat - 48) else none := rfl
  rw [digit]
  constructor
  · intro read
    split at read
    case isFalse => cases read
    case isTrue range =>
      cases read
      have low : c.toNat - 48 < 10 := by omega
      refine ⟨low, Char.toNat_inj.mp ?_⟩
      rw [Nat.toNat_digitChar_of_lt_ten low]
      omega
  · rintro ⟨low, rfl⟩
    have code := Nat.toNat_digitChar_of_lt_ten low
    rw [code, if_pos (by omega)]
    simp

theorem appendDigits_concat (n : Nat) (cs : List Char) (c : Char) :
    appendDigits n (cs ++ [c]) =
      (appendDigits n cs).bind fun m => (digit? c).map (10 * m + ·) := by
  induction cs generalizing n with
  | nil => cases h : digit? c <;> simp [appendDigits, h]
  | cons b cs ih => cases h : digit? b <;> simp [appendDigits, h, ih]

theorem Numeral.ne_nil (numeral : Numeral n cs) : cs ≠ [] := by
  cases numeral <;> simp

theorem natural?_of_ne_nil (some : cs ≠ []) : natural? cs = appendDigits 0 cs :=
  if_neg (by simpa using some)

theorem natural?_of_numeral (numeral : Numeral n cs) : natural? cs = some n := by
  rw [natural?_of_ne_nil numeral.ne_nil]
  induction numeral with
  | digit low => simp [appendDigits, digit?_eq_some_iff.mpr ⟨low, rfl⟩]
  | more _ low ih =>
    rw [appendDigits_concat, ih, digit?_eq_some_iff.mpr ⟨low, rfl⟩]
    rfl

/-- By induction on the digits from the last one: those in front of it are a numeral, or there is
only one. -/
theorem numeral_of_natural? (read : natural? cs = some n) : Numeral n cs := by
  induction cs using List.reverseRecOn generalizing n with
  | nil => cases read
  | append_singleton cs c ih =>
    rw [natural?_of_ne_nil (by simp), appendDigits_concat, Option.bind_eq_some_iff] at read
    obtain ⟨m, front, last⟩ := read
    obtain ⟨d, digit, rfl⟩ := Option.map_eq_some_iff.mp last
    obtain ⟨low, rfl⟩ := digit?_eq_some_iff.mp digit
    cases cs with
    | nil =>
      cases front
      simpa using Numeral.digit low
    | cons b cs => exact .more (ih (by rwa [natural?_of_ne_nil (by simp)])) low

theorem natural?_eq_some_iff : natural? cs = some n ↔ Numeral n cs :=
  ⟨numeral_of_natural?, natural?_of_numeral⟩

theorem Numeral.digits (numeral : Numeral n cs) : ∀ c ∈ cs, ∃ d < 10, c = d.digitChar := by
  induction numeral with
  | digit low =>
    rw [List.forall_mem_singleton]
    exact ⟨_, low, rfl⟩
  | more front low ih =>
    rw [List.forall_mem_append, List.forall_mem_singleton]
    exact ⟨ih, _, low, rfl⟩

/-- A numeral begins with a digit. -/
theorem Numeral.head_ne (numeral : Numeral n (c :: cs)) : c ≠ '+' ∧ c ≠ '-' := by
  obtain ⟨d, low, rfl⟩ := numeral.digits c List.mem_cons_self
  have digits : ∀ d < 10, d.digitChar ≠ '+' ∧ d.digitChar ≠ '-' := by decide
  exact digits d low

theorem signed?_of_decimal {n : Int} (decimal : Decimal n cs) : signed? cs = some n := by
  cases decimal with
  | plus numeral => simp [signed?, unsigned?, natural?_eq_some_iff.mpr numeral]
  | minus numeral => simp [signed?, natural?_eq_some_iff.mpr numeral]
  | bare numeral =>
    have read := natural?_eq_some_iff.mpr numeral
    cases cs with
    | nil => cases read
    | cons c cs =>
      obtain ⟨plus, minus⟩ := numeral.head_ne
      simp [signed?, unsigned?, read, plus, minus]

theorem decimal_of_signed? {n : Int} (read : signed? cs = some n) : Decimal n cs := by
  unfold signed? at read
  split at read
  case h_1 =>
    obtain ⟨_, lifted, rfl⟩ := Option.map_eq_some_iff.mp read
    obtain ⟨m, digits, ⟨⟩⟩ := Option.bind_eq_some_iff.mp lifted
    exact .minus (natural?_eq_some_iff.mp digits)
  case h_2 =>
    obtain ⟨m, unsigned, rfl⟩ := Option.map_eq_some_iff.mp read
    unfold unsigned? at unsigned
    split at unsigned
    case h_1 => exact .plus (natural?_eq_some_iff.mp unsigned)
    case h_2 => exact .bare (natural?_eq_some_iff.mp unsigned)

theorem signed?_eq_some_iff {n : Int} : signed? cs = some n ↔ Decimal n cs :=
  ⟨decimal_of_signed?, signed?_of_decimal⟩

theorem Decimal.unique {m n : Int} (decimal : Decimal m cs) (decimal' : Decimal n cs) : m = n := by
  have read := signed?_of_decimal decimal
  rw [signed?_of_decimal decimal'] at read
  exact (Option.some.inj read).symm

/-- An integer ends in front of the first colon. -/
theorem Decimal.colon_not_mem {n : Int} (decimal : Decimal n cs) : ':' ∉ cs := by
  have digits : ∀ d < 10, d.digitChar ≠ ':' := by decide
  have inside {n : Nat} {cs : List Char} (numeral : Numeral n cs) : ':' ∉ cs := by
    intro colon
    obtain ⟨d, low, same⟩ := numeral.digits ':' colon
    exact digits d low same.symm
  cases decimal with
  | bare numeral => exact inside numeral
  | plus numeral => simpa using inside numeral
  | minus numeral => simpa using inside numeral

/-! ## Writing integers -/

/-- By induction on the digits of a natural number, the last one behind the others. -/
theorem toDigits_induction {P : Nat → List Char → Prop}
    (digit : ∀ d, d < 10 → P d [d.digitChar])
    (more : ∀ n d cs, n ≠ 0 → d < 10 → P n cs → P (10 * n + d) (cs ++ [d.digitChar])) (n : Nat) :
    P n (Nat.toDigits 10 n) := by
  induction n using Nat.strongRecOn with
  | _ n ih =>
    by_cases small : n < 10
    · rw [Nat.toDigits_of_lt_base small]
      exact digit n small
    · have low : n % 10 < 10 := Nat.mod_lt n (by decide)
      have whole := more (n / 10) (n % 10) _ (by omega) low (ih (n / 10) (by omega))
      rw [Nat.toDigits_of_base_le (by decide) (by omega)]
      rwa [Nat.div_add_mod] at whole

theorem toList_toString_ofNat (n : Nat) : (toString (Int.ofNat n)).toList = Nat.toDigits 10 n :=
  String.toList_ofList

theorem toList_toString_negSucc (n : Nat) :
    (toString (Int.negSucc n)).toList = '-' :: Nat.toDigits 10 (n + 1) := by
  have text : toString (Int.negSucc n) = "-" ++ String.ofList (Nat.toDigits 10 (n + 1)) := rfl
  rw [text, String.toList_append, String.toList_ofList, String.toList_ofList]
  rfl

theorem numeral_toDigits (n : Nat) : Numeral n (Nat.toDigits 10 n) :=
  toDigits_induction (fun _ low => .digit low) (fun _ _ _ _ low front => front.more low) n

theorem decimal_toString (n : Int) : Decimal n (toString n).toList := by
  cases n with
  | ofNat n =>
    rw [toList_toString_ofNat]
    exact .bare (numeral_toDigits n)
  | negSucc n =>
    rw [toList_toString_negSucc]
    exact .minus (numeral_toDigits (n + 1))

end Postmortem.Text
