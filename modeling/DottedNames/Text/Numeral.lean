import DottedNames.Text.Basic

/-!
# Numerals

Whole numbers as text. `decimal` and `integer` write the canonical form.
Reading goes from left to right and stops at the first fault: a byte that is
no digit of the base makes the numeral malformed, and a value that no longer
fits 64 bits puts it out of range, so the earlier of the two faults is the one
that is reported. Signed numerals then have to fit the 64-bit signed range.

`readInteger` reads plain decimal numerals. `readLiteral` also takes the bases
that a beginning announces, `0x`, `0o`, `0b` and a bare `0` for octal, and
single underscores between digits.
-/

namespace DottedNames

namespace Text

/-- A natural number in decimal, without leading zeros. -/
def decimal (n : Nat) : Text := (Nat.toDigits 10 n).map Char.toUInt8

/-- An integer in decimal, with a dash when it is negative. -/
def integer : Int → Text
  | .ofNat n => decimal n
  | .negSucc n => Byte.dash :: decimal (n + 1)

end Text

namespace Numeral

/-- The number of values of a 64-bit word, 2⁶⁴. -/
abbrev word64 : Nat := 0x10000000000000000

/-- Half the values of a 64-bit word, 2⁶³. -/
abbrev half64 : Nat := 0x8000000000000000

/-- The number of values of a 32-bit word, 2³². -/
abbrev word32 : Nat := 0x100000000

/-- Half the values of a 32-bit word, 2³¹. -/
abbrev half32 : Nat := 0x80000000

/-- Why a numeral is refused. -/
inductive Fault where
  /-- Some byte is not a digit where a digit is needed. -/
  | malformed
  /-- The value does not fit. -/
  | outOfRange
deriving DecidableEq, Repr

/-- The wording of a fault. -/
def Fault.message : Fault → Text
  | .malformed => text "invalid syntax"
  | .outOfRange => text "value out of range"

/-- The value of a digit of any base up to 36. -/
def digitValue? (b : UInt8) : Option Nat :=
  if Byte.isDigit b then some (b.toNat - 0x30)
  else if Byte.isLower b then some (b.toNat - 0x57)
  else if Byte.isUpper b then some (b.toNat - 0x37)
  else none

/-- Reads digits after those that make up `value`, as an unsigned 64-bit
number. Underscores are passed over when `grouped` allows them. -/
def magnitude (base : Nat) (grouped : Bool) (value : Nat) : Text → Except Fault Nat
  | [] => .ok value
  | b :: s =>
    if grouped && b == 0x5f then magnitude base grouped value s
    else match digitValue? b with
      | none => .error .malformed
      | some digit =>
        if base ≤ digit then .error .malformed
        else if word64 ≤ value * base + digit then .error .outOfRange
        else magnitude base grouped (value * base + digit) s

/-- A leading sign, true for a dash, and what follows it. -/
def splitSign : Text → Bool × Text
  | [] => (false, [])
  | b :: s =>
    if b == 0x2b then (false, s)
    else if b == Byte.dash then (true, s)
    else (false, b :: s)

/-- The signed number with a given magnitude, when 64 bits can hold it. -/
def signed (negative : Bool) (n : Nat) : Except Fault Int :=
  if negative then
    if n ≤ half64 then .ok (-(n : Int)) else .error .outOfRange
  else
    if n < half64 then .ok (n : Int) else .error .outOfRange

/-- Unsigned decimal digits, at least one of them. -/
def readDecimal (s : Text) : Except Fault Nat :=
  if s.isEmpty then .error .malformed else magnitude 10 false 0 s

/-- A decimal numeral with an optional sign. -/
def readInteger (s : Text) : Except Fault Int := do
  let (negative, digits) := splitSign s
  signed negative (← readDecimal digits)

/-- Whether every underscore stands between two digits; `afterDigit` says
whether a digit, or the mark of the base, stands just before the text. -/
def underscoresSeparate (afterDigit : Bool) : Text → Bool
  | [] => true
  | b :: s =>
    if b == 0x5f then
      afterDigit && !s.isEmpty && (s.head? != some 0x5f) && underscoresSeparate false s
    else underscoresSeparate true s

/-- Unsigned digits in the base that their beginning announces. -/
def readUnsignedLiteral (s : Text) : Except Fault Nat :=
  let read (base : Nat) (afterDigit : Bool) (digits : Text) : Except Fault Nat := do
    let n ← magnitude base true 0 digits
    if underscoresSeparate afterDigit digits then .ok n else .error .malformed
  match s with
  | [] => .error .malformed
  | 0x30 :: mark :: d :: digits =>
    if Byte.toLower mark == 0x62 then read 2 true (d :: digits)
    else if Byte.toLower mark == 0x6f then read 8 true (d :: digits)
    else if Byte.toLower mark == 0x78 then read 16 true (d :: digits)
    else read 8 true (mark :: d :: digits)
  | 0x30 :: digits => read 8 true digits
  | digits => read 10 false digits

/-- A numeral with an optional sign, in the base that its beginning announces. -/
def readLiteral (s : Text) : Except Fault Int := do
  let (negative, digits) := splitSign s
  signed negative (← readUnsignedLiteral digits)

end Numeral

end DottedNames
