import DottedNames.CommandLine.Line
import DottedNames.Proofs.WholeNumbers
import DottedNames.Report

/-!
# Line numbers, in and out

A line is counted from one where people see it and from zero inside, and it is a
64-bit number all the way. It may be spelt with a sign and with zeros in front, so one
number has many spellings. This file says which texts are read as a line and as which,
and how a line is shown.

Reading does not take in the whole numeral before it judges it: it stops at the first
byte that is no digit and at the first value that 64 bits cannot hold. To accept a text
it must have gone through all of it, so an accepted text is a sign and digits. Digits
that are stopped early have a value that is too large, which digits that follow cannot
undo: the value only grows. Hence a text is read exactly when it is a numeral whose
value fits, with no exception at either end of the range, and the number that comes
out after counting down and up again is the one that went in.

## Main results

* `Numeral.magnitude_digits` — reading a run of digits.
* `Numeral.readInteger_eq_ok_iff` — the texts that are read as a number of 64 bits.
* `CommandLine.readLine_eq_ok_iff` — the texts that are read as a line.
* `CommandLine.readLine_decimal_iff` — the same for numbers in decimal.
* `Located.integer_shownLine` — a line is shown as the number it was given by.
-/

namespace DottedNames

namespace Numeral

/-- A text of decimal digits, at least one. -/
structure IsDigits (s : Text) : Prop where
  ne_nil : s ≠ []
  bytes : ∀ b ∈ s, Byte.isDigit b = true

/-- A decimal numeral, digits with an optional sign in front, and its value. -/
inductive IsNumeral : Text → Int → Prop where
  | plain {digits : Text} (h : IsDigits digits) : IsNumeral digits (Json.digitsValue digits)
  | plus {digits : Text} (h : IsDigits digits) :
      IsNumeral (0x2b :: digits) (Json.digitsValue digits)
  | minus {digits : Text} (h : IsDigits digits) :
      IsNumeral (Byte.dash :: digits) (-(Json.digitsValue digits : Int))

/-- The number with a sign, true for a dash, and a magnitude. -/
def withSign (negative : Bool) (n : Nat) : Int := if negative then -(n : Int) else n

/-! ## Digits -/

/-- The value of digits that follow those that make up `value`. -/
def valueFrom (value : Nat) (digits : Text) : Nat :=
  digits.foldl (fun value b => value * 10 + (b.toNat - 0x30)) value

theorem valueFrom_zero (digits : Text) : valueFrom 0 digits = Json.digitsValue digits := rfl

/-- More digits never make a value smaller. -/
theorem le_valueFrom (value : Nat) (digits : Text) : value ≤ valueFrom value digits := by
  induction digits generalizing value with
  | nil => exact Nat.le_refl value
  | cons b digits ih =>
      have hRest := ih (value * 10 + (b.toNat - 0x30))
      simp only [valueFrom, List.foldl_cons] at hRest ⊢
      omega

theorem digitValue?_of_isDigit {b : UInt8} (h : Byte.isDigit b = true) :
    digitValue? b = some (b.toNat - 0x30) ∧ b.toNat - 0x30 < 10 := by
  refine ⟨if_pos h, ?_⟩
  simp only [Byte.isDigit, Bool.and_eq_true, decide_eq_true_eq, UInt8.le_iff_toNat_le,
    UInt8.reduceToNat] at h
  omega

/-- Digits are read as their value when it fits 64 bits, and are out of range
otherwise. -/
theorem magnitude_digits {digits : Text} (h : ∀ b ∈ digits, Byte.isDigit b = true) {value : Nat}
    (hValue : value < word64) :
    magnitude 10 false value digits =
      if valueFrom value digits < word64 then .ok (valueFrom value digits)
      else .error .outOfRange := by
  induction digits generalizing value with
  | nil => simp [magnitude, valueFrom, hValue]
  | cons b digits ih =>
      obtain ⟨hDigit, hSmall⟩ := digitValue?_of_isDigit (h b (by simp))
      have hStep : valueFrom value (b :: digits) =
          valueFrom (value * 10 + (b.toNat - 0x30)) digits := rfl
      rw [magnitude, hDigit, hStep]
      simp only [Bool.false_and, Bool.false_eq_true, if_false, Nat.not_le.2 hSmall]
      by_cases hFits : value * 10 + (b.toNat - 0x30) < word64
      · rw [if_neg (Nat.not_le.2 hFits), ih (fun c hc => h c (by simp [hc])) hFits]
      · have hMore := le_valueFrom (value * 10 + (b.toNat - 0x30)) digits
        rw [if_pos (Nat.not_lt.1 hFits), if_neg]
        omega

theorem readDecimal_digits {digits : Text} (h : IsDigits digits) :
    readDecimal digits =
      if Json.digitsValue digits < word64 then .ok (Json.digitsValue digits)
      else .error .outOfRange := by
  have hEmpty : ¬ digits.isEmpty = true := by simpa using h.ne_nil
  rw [readDecimal, if_neg hEmpty, magnitude_digits h.bytes (by decide), valueFrom_zero]

/-- Only decimal digits have a value below ten. -/
theorem isDigit_of_digitValue? {b : UInt8} {digit : Nat} (h : digitValue? b = some digit)
    (hSmall : digit < 10) : Byte.isDigit b = true := by
  unfold digitValue? at h
  split at h
  · next hDigit => exact hDigit
  · split at h
    · next hLower =>
        simp only [Byte.isLower, Bool.and_eq_true, decide_eq_true_eq, UInt8.le_iff_toNat_le,
          UInt8.reduceToNat] at hLower
        have hValue := Option.some.inj h
        omega
    · split at h
      · next hUpper =>
          simp only [Byte.isUpper, Bool.and_eq_true, decide_eq_true_eq, UInt8.le_iff_toNat_le,
            UInt8.reduceToNat] at hUpper
          have hValue := Option.some.inj h
          omega
      · exact absurd h (by simp)

/-- What is read to its end is digits throughout. -/
theorem isDigit_of_magnitude {s : Text} {value n : Nat}
    (h : magnitude 10 false value s = .ok n) : ∀ b ∈ s, Byte.isDigit b = true := by
  induction s generalizing value with
  | nil => simp
  | cons b s ih =>
      simp only [magnitude, Bool.false_and, Bool.false_eq_true, if_false] at h
      cases hDigit : digitValue? b with
      | none => simp [hDigit] at h
      | some digit =>
          simp only [hDigit] at h
          split at h
          · exact absurd h (by simp)
          · next hSmall =>
              split at h
              · exact absurd h (by simp)
              · have hFirst := isDigit_of_digitValue? hDigit (Nat.not_le.1 hSmall)
                simpa [hFirst] using ih h

theorem readDecimal_eq_ok_iff {s : Text} {n : Nat} :
    readDecimal s = .ok n ↔
      IsDigits s ∧ Json.digitsValue s < word64 ∧ n = Json.digitsValue s := by
  constructor
  · intro h
    have hDigits : IsDigits s := by
      unfold readDecimal at h
      split at h
      · exact absurd h (by simp)
      · next hSome => exact ⟨by simpa using hSome, isDigit_of_magnitude h⟩
    rw [readDecimal_digits hDigits] at h
    split at h
    · next hFits => exact ⟨hDigits, hFits, (Except.ok.inj h).symm⟩
    · exact absurd h (by simp)
  · rintro ⟨hDigits, hFits, rfl⟩
    rw [readDecimal_digits hDigits, if_pos hFits]

/-! ## Signs -/

theorem splitSign_digits {digits : Text} (h : ∀ b ∈ digits, Byte.isDigit b = true) :
    splitSign digits = (false, digits) := by
  cases digits with
  | nil => rfl
  | cons b digits =>
      have hDigit := h b (by simp)
      have hPlus : (b == 0x2b) = false := by
        rw [beq_eq_false_iff_ne]
        rintro rfl
        exact absurd hDigit (by decide)
      have hDash : (b == Byte.dash) = false := by
        rw [beq_eq_false_iff_ne]
        rintro rfl
        exact absurd hDigit (by decide)
      simp [splitSign, hPlus, hDash]

theorem signed_eq_ok_iff {negative : Bool} {n : Nat} {v : Int} :
    signed negative n = .ok v ↔
      v = withSign negative n ∧ -(half64 : Int) ≤ v ∧ v < half64 := by
  have hHalf : half64 = 2 ^ 63 := by decide
  cases negative with
  | true =>
      simp only [signed, withSign, if_true]
      split
      · simp only [Except.ok.injEq]
        omega
      · simp only [reduceCtorEq, false_iff]
        omega
  | false =>
      simp only [signed, withSign, Bool.false_eq_true, if_false]
      split
      · simp only [Except.ok.injEq]
        omega
      · simp only [reduceCtorEq, false_iff]
        omega

/-- A numeral is what a sign is split off from and digits are left of. -/
theorem isNumeral_iff {s : Text} {v : Int} :
    IsNumeral s v ↔
      IsDigits (splitSign s).2 ∧
        v = withSign (splitSign s).1 (Json.digitsValue (splitSign s).2) := by
  constructor
  · intro h
    cases h with
    | plain hDigits =>
        rw [splitSign_digits hDigits.bytes]
        exact ⟨hDigits, rfl⟩
    | plus hDigits => exact ⟨hDigits, rfl⟩
    | minus hDigits => exact ⟨hDigits, rfl⟩
  · rintro ⟨hDigits, rfl⟩
    cases s with
    | nil => exact absurd rfl hDigits.ne_nil
    | cons b s =>
        unfold splitSign at hDigits ⊢
        by_cases hPlus : b = 0x2b
        · subst hPlus
          exact IsNumeral.plus hDigits
        · by_cases hDash : b = Byte.dash
          · subst hDash
            exact IsNumeral.minus hDigits
          · simp only [beq_iff_eq, hPlus, hDash, if_false] at hDigits ⊢
            exact IsNumeral.plain hDigits

/-- The texts that are read as a number of 64 bits are the numerals whose value fits. -/
theorem readInteger_eq_ok_iff {s : Text} {v : Int} :
    readInteger s = .ok v ↔ IsNumeral s v ∧ -(half64 : Int) ≤ v ∧ v < half64 := by
  have hRead : readInteger s =
      (readDecimal (splitSign s).2).bind (signed (splitSign s).1) := rfl
  rw [hRead, isNumeral_iff]
  constructor
  · intro h
    cases hMagnitude : readDecimal (splitSign s).2 with
    | error fault =>
        rw [hMagnitude] at h
        exact absurd h (by simp [Except.bind])
    | ok n =>
        obtain ⟨hDigits, -, rfl⟩ := readDecimal_eq_ok_iff.1 hMagnitude
        rw [hMagnitude] at h
        obtain ⟨hValue, hRange⟩ := signed_eq_ok_iff.1 h
        exact ⟨⟨hDigits, hValue⟩, hRange⟩
  · rintro ⟨⟨hDigits, hValue⟩, hRange⟩
    have hFits : Json.digitsValue (splitSign s).2 < word64 := by
      have hHalf : half64 = 2 ^ 63 := by decide
      have hWord : word64 = 2 ^ 64 := by decide
      unfold withSign at hValue
      split at hValue <;> omega
    rw [readDecimal_eq_ok_iff.2 ⟨hDigits, hFits, rfl⟩]
    exact signed_eq_ok_iff.2 ⟨hValue, hRange⟩

end Numeral

namespace CommandLine

open Numeral (IsNumeral)

/-- The texts that are read as a line are the numerals of positive numbers of 64 bits,
and the line is one less. -/
theorem readLine_eq_ok_iff {argument : Text} {index : Int64} :
    readLine argument = .ok index ↔
      ∃ n : Nat, IsNumeral argument n ∧ 1 ≤ n ∧ n ≤ 2 ^ 63 - 1 ∧ index.toInt = n - 1 := by
  have hHalf : Numeral.half64 = 2 ^ 63 := by decide
  unfold readLine
  constructor
  · intro h
    cases hRead : Numeral.readInteger argument with
    | error fault => simp [hRead] at h
    | ok number =>
        simp only [hRead] at h
        split at h
        · exact absurd h (by simp)
        · next hLine =>
            obtain ⟨hNumeral, -, hFits⟩ := Numeral.readInteger_eq_ok_iff.1 hRead
            obtain ⟨n, rfl⟩ := Int.eq_ofNat_of_zero_le (show 0 ≤ number by omega)
            refine ⟨n, hNumeral, by omega, by omega, ?_⟩
            rw [← Except.ok.inj h, Int64.toInt_ofInt_of_le (by omega) (by omega)]
  · rintro ⟨n, hNumeral, hOne, hFits, hIndex⟩
    have hRead := Numeral.readInteger_eq_ok_iff.2 ⟨hNumeral, by omega, by omega⟩
    rw [hRead]
    simp only
    rw [if_neg (by omega), ← hIndex, Int64.ofInt_toInt]

theorem readLine_of_isNumeral {line : Text} {n : Nat} (h : IsNumeral line n) (hOne : 1 ≤ n)
    (hFits : n ≤ 2 ^ 63 - 1) : readLine line = .ok (Int64.ofNat (n - 1)) := by
  refine readLine_eq_ok_iff.2 ⟨n, h, hOne, hFits, ?_⟩
  rw [Int64.toInt_ofNat_of_lt (by omega)]
  omega

theorem isNumeral_decimal_iff {n : Nat} {v : Int} : IsNumeral (Text.decimal n) v ↔ v = n := by
  have hDigits : Numeral.IsDigits (Text.decimal n) := by
    refine ⟨?_, Text.isDigit_of_mem_decimal n⟩
    rw [Text.decimal_eq]
    simp
  rw [Numeral.isNumeral_iff, Numeral.splitSign_digits hDigits.bytes, Json.digitsValue_decimal]
  exact ⟨fun h => h.2, fun h => ⟨hDigits, h⟩⟩

/-- The number of a line is accepted when it is at least one and fits 64 bits, and
it is read as one less. -/
theorem readLine_decimal_iff {n : Nat} {index : Int64} :
    readLine (Text.decimal n) = .ok index ↔
      1 ≤ n ∧ n < 2 ^ 63 ∧ index = Int64.ofNat (n - 1) := by
  constructor
  · intro h
    obtain ⟨m, hNumeral, hOne, hFits, hIndex⟩ := readLine_eq_ok_iff.1 h
    obtain rfl : m = n := Int.ofNat_inj.1 (isNumeral_decimal_iff.1 hNumeral)
    rw [readLine_of_isNumeral hNumeral hOne hFits] at h
    exact ⟨hOne, by omega, (Except.ok.inj h).symm⟩
  · rintro ⟨hOne, hFits, rfl⟩
    exact readLine_of_isNumeral (isNumeral_decimal_iff.2 rfl) hOne (by omega)

end CommandLine

/-- A line is shown as the number it was given by. -/
theorem Located.integer_shownLine {n : Nat} (h : n + 1 < 2 ^ 63) (e : Element) :
    Text.integer (shownLine { line := Int64.ofNat n, element := e }) = Text.decimal (n + 1) := by
  have hNext : Int64.ofNat n + 1 = Int64.ofNat (n + 1) := (Int64.ofNat_add n 1).symm
  rw [shownLine, hNext, Int64.toInt_ofNat_of_lt h]
  rfl

end DottedNames
