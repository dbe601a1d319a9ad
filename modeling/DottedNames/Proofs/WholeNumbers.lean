import DottedNames.Json.Number
import Mathlib.Algebra.Group.Nat.Defs

/-!
# Whole numbers as doubles

A number of the exchange format is read as the double nearest to its literal.
For a literal of digits whose value needs no more bits than the significand of a
double has, that double is the value itself, so a line number of up to 53 bits
goes over the wire unchanged.

The value of digits and the writing of a number are both one digit at a time from
the left, so `decimal_eq`, which splits off the last digit, carries the induction.

## Main results

* `Json.digitsValue_decimal` — the digits of a number have its value.
* `Json.nearestWhole_one` — a whole number of 53 bits is a double.
* `Json.wholePart?_decimal` — such a number is read back from its digits.
-/

namespace DottedNames

namespace Text

/-- A number is written as the number without its last digit, and that digit. -/
theorem decimal_eq (n : Nat) :
    decimal n = (if n < 10 then [] else decimal (n / 10)) ++ [(0x30 + n % 10).toUInt8] := by
  have hDigit : ∀ d, d < 10 → d.digitChar.toUInt8 = (0x30 + d).toUInt8 := by decide
  unfold decimal
  rw [Nat.toDigits_eq_if (by omega)]
  split
  · next hSmall => simp [hDigit n hSmall, Nat.mod_eq_of_lt hSmall]
  · simp [hDigit (n % 10) (Nat.mod_lt n (by omega))]

theorem isDigit_of_mem_decimal (n : Nat) : ∀ b ∈ decimal n, Byte.isDigit b = true := by
  have hDigit : ∀ d, d < 10 → Byte.isDigit (0x30 + d).toUInt8 = true := by decide
  induction n using Nat.strongRecOn with
  | ind n ih =>
      rw [decimal_eq]
      intro b hb
      rcases List.mem_append.1 hb with hFront | hLast
      · split at hFront
        · exact absurd hFront (by simp)
        · exact ih (n / 10) (by omega) b hFront
      · rw [List.mem_singleton.1 hLast]
        exact hDigit (n % 10) (Nat.mod_lt n (by omega))

theorem length_decimal_le {n k : Nat} (hk : 0 < k) (h : n < 10 ^ k) : (decimal n).length ≤ k := by
  rw [decimal, List.length_map]
  exact (Nat.length_toDigits_le_iff (by omega) hk).2 h

theorem cutAt_of_none {p : UInt8 → Bool} {s : Text} (h : ∀ b ∈ s, p b = false) :
    cutAt p s = (s, none) := by
  induction s with
  | nil => rfl
  | cons b s ih =>
      rw [cutAt, h b (by simp), ih fun c hc => h c (by simp [hc])]
      rfl

end Text

namespace Json

/-! ## The value of digits -/

theorem digitsValue_concat (s : Text) (b : UInt8) :
    digitsValue (s ++ [b]) = digitsValue s * 10 + (b.toNat - 0x30) := by
  simp [digitsValue]

theorem digitsValue_decimal (n : Nat) : digitsValue (Text.decimal n) = n := by
  have hDigit : ∀ d, d < 10 → (0x30 + d).toUInt8.toNat - 0x30 = d := by decide
  induction n using Nat.strongRecOn with
  | ind n ih =>
      rw [Text.decimal_eq, digitsValue_concat, hDigit (n % 10) (Nat.mod_lt n (by omega))]
      split
      · next hSmall => simp [digitsValue, Nat.mod_eq_of_lt hSmall]
      · rw [ih (n / 10) (by omega)]
        omega

/-- Zeros in front do not change the value. -/
theorem digitsValue_dropWhile (s : Text) :
    digitsValue (s.dropWhile (· == 0x30)) = digitsValue s := by
  induction s with
  | nil => rfl
  | cons b s ih =>
      rw [List.dropWhile_cons]
      split
      · next hZero =>
          rw [ih, beq_iff_eq.1 hZero]
          rfl
      · rfl

/-! ## Rounding -/

theorem roundHalfEven_one (n : Nat) : roundHalfEven n 1 = n := by
  simp [roundHalfEven, Nat.mod_one]

theorem binaryExponent_one {n : Nat} (h : n ≠ 0) : binaryExponent n 1 = n.log2 := by
  have hOne : Nat.log2 1 = 0 := by decide
  have hReached : ¬ n < 2 ^ n.log2 := Nat.not_lt.2 (Nat.log2_self_le h)
  simp [binaryExponent, hOne, hReached]

/-- A whole number that fits a significand is its own nearest double: it is scaled
up by a power of two, rounding changes nothing, and it is scaled back. -/
theorem nearestWhole_one {n : Nat} (h : n < 2 ^ significandBits) : nearestWhole n 1 = n := by
  by_cases hZero : n = 0
  · subst hZero
    decide
  · have hBits : n.log2 < significandBits := (Nat.log2_lt hZero).2 h
    have hUnit : 0 < Nat.pow 2 ((n.log2 : Int) - (significandBits - 1 : Nat)).natAbs :=
      Nat.two_pow_pos _
    have hNotSmall : ¬ 2 * n < 1 := by omega
    unfold nearestWhole
    rw [if_neg hNotSmall, binaryExponent_one hZero]
    simp only
    unfold significandBits at hBits hUnit ⊢
    split
    · next hScale =>
        have hTop : (n.log2 : Int) - (53 - 1 : Nat) = 0 := by omega
        rw [hTop]
        simp [roundHalfEven_one]
    · rw [roundHalfEven_one, Nat.mul_div_cancel _ hUnit]

/-! ## Literals of digits -/

theorem decimalOf_digits {s : Text} (h : ∀ b ∈ s, Byte.isDigit b = true) :
    decimalOf s = { negative := false, digits := s.dropWhile (· == 0x30), exponent := 0 } := by
  have hOther : ∀ c, Byte.isDigit c = false → ∀ b ∈ s, (b == c) = false := by
    intro c hc b hb
    rw [beq_eq_false_iff_ne]
    rintro rfl
    rw [h b hb] at hc
    exact absurd hc (by decide)
  have hSign : (s.head? == some Byte.dash) = false := by
    cases s with
    | nil => rfl
    | cons b s => exact hOther Byte.dash (by decide) b (by simp)
  have hExponent : ∀ b ∈ s, (b == 0x65 || b == 0x45) = false := by
    intro b hb
    rw [hOther 0x65 (by decide) b hb, hOther 0x45 (by decide) b hb]
    rfl
  simp [decimalOf, hSign, Text.cutAt_of_none hExponent,
    Text.cutAt_of_none (hOther Byte.dot (by decide))]

/-- Digits whose value fits a significand are read as that value. -/
theorem wholePart?_digits {s : Text} (hDigits : ∀ b ∈ s, Byte.isDigit b = true)
    (hLength : s.length ≤ 310) (h : digitsValue s < 2 ^ significandBits) :
    wholePart? s = some (digitsValue s : Int) := by
  have hDrop : (s.dropWhile (· == 0x30)).length ≤ s.length := (List.dropWhile_suffix _).length_le
  have hBound : ¬ doubleBound ≤ digitsValue s := by
    have hLarge : 2 ^ significandBits ≤ doubleBound := by decide +kernel
    omega
  rw [← digitsValue_dropWhile] at h hBound ⊢
  simp only [wholePart?, decimalOf_digits hDigits]
  generalize s.dropWhile (· == 0x30) = digits at *
  cases digits with
  | nil => rfl
  | cons b digits =>
      have hPower : Nat.pow 10 (Int.toNat 0) = 1 := rfl
      have hSize : ((b :: digits).length : Int) + 0 = (b :: digits).length := by omega
      rw [Int.neg_zero, hPower, hSize, Nat.mul_one, Nat.one_mul, if_neg, if_neg, if_neg hBound,
        nearestWhole_one h]
      · rfl
      · omega
      · simp only [List.isEmpty_cons, Bool.false_or, decide_eq_true_eq]
        omega

/-- A whole number that fits a significand is read back from its digits. -/
theorem wholePart?_decimal {n : Nat} (h : n < 2 ^ significandBits) :
    wholePart? (Text.decimal n) = some (n : Int) := by
  have hShort : n < 10 ^ 16 := Nat.lt_trans h (by decide)
  have hLength : (Text.decimal n).length ≤ 310 :=
    Nat.le_trans (Text.length_decimal_le (by decide) hShort) (by decide)
  have hValue := digitsValue_decimal n
  rw [wholePart?_digits (Text.isDigit_of_mem_decimal n) hLength (by rw [hValue]; exact h), hValue]

end Json

end DottedNames
