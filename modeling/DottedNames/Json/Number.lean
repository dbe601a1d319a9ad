import DottedNames.Json.Basic

/-!
# The value of a JSON number

A literal is read in one of two ways. Where a whole number is wanted, only a
literal without point and exponent will do (`natural?`, `integer?`). Where any
number is welcome it is taken as a double-precision number: the literal is
rounded to the nearest one, a tie to the even neighbour, and `wholePart?` is
that number without its fraction. A literal that rounds beyond the largest
double has no value.

Rounding is exact arithmetic on fractions of naturals.
-/

namespace DottedNames

namespace Json

/-- The value of a run of decimal digits. -/
def digitsValue (digits : Text) : Nat :=
  digits.foldl (fun value b => value * 10 + (b.toNat - 0x30)) 0

/-- The value of a literal that consists of digits only. -/
def natural? (literal : Text) : Option Nat :=
  if !literal.isEmpty && literal.all Byte.isDigit then some (digitsValue literal) else none

/-- The value of a literal that consists of an optional dash and digits. -/
def integer? (literal : Text) : Option Int :=
  match literal with
  | [] => none
  | b :: digits =>
    if b == Byte.dash then (natural? digits).map fun n => -(n : Int)
    else (natural? literal).map Int.ofNat

/-- A decimal number: its digits as one number, times a power of ten. -/
structure Decimal where
  negative : Bool
  digits : Text
  exponent : Int
deriving DecidableEq, Repr

/-- The parts of a literal. -/
def decimalOf (literal : Text) : Decimal :=
  let negative := literal.head? == some Byte.dash
  let s := if negative then literal.tail else literal
  let (mantissa, exponent) := Text.cutAt (fun b => b == 0x65 || b == 0x45) s
  let (whole, fraction) := Text.cutAt (· == Byte.dot) mantissa
  let fraction := fraction.getD []
  let exponent : Int :=
    match exponent.getD [] with
    | [] => 0
    | b :: s =>
      if b == Byte.dash then -(digitsValue s : Int)
      else if b == 0x2b then digitsValue s
      else digitsValue (b :: s)
  { negative, digits := (whole ++ fraction).dropWhile (· == 0x30),
    exponent := exponent - fraction.length }

/-- The quotient rounded to the nearest whole number, a tie to the even one. -/
def roundHalfEven (num den : Nat) : Nat :=
  let quotient := num / den
  let twice := 2 * (num % den)
  if den < twice || (twice == den && quotient % 2 == 1) then quotient + 1 else quotient

/-- The exponent of the largest power of two that is at most `num / den`, for
a quotient of at least one half. -/
def binaryExponent (num den : Nat) : Int :=
  let guess : Int := (num.log2 : Int) - den.log2
  let reached : Bool :=
    if 0 ≤ guess then den * Nat.pow 2 guess.toNat ≤ num
    else den ≤ num * Nat.pow 2 (-guess).toNat
  if reached then guess else guess - 1

/-- The number of bits of a double's significand. -/
def significandBits : Nat := 53

/-- The whole part of the double nearest to `num / den`. -/
def nearestWhole (num den : Nat) : Nat :=
  if 2 * num < den then 0
  else
    let scale := binaryExponent num den - (significandBits - 1 : Nat)
    let unit := Nat.pow 2 scale.natAbs
    if 0 ≤ scale then roundHalfEven num (den * unit) * unit
    else roundHalfEven (num * unit) den / unit

/-- The least whole number that no double is nearest to. -/
def doubleBound : Nat := Nat.pow 2 1024 - Nat.pow 2 970

/-- The number a literal stands for, as a double without its fraction. -/
def wholePart? (literal : Text) : Option Int :=
  let d := decimalOf literal
  let size := (d.digits.length : Int) + d.exponent
  if d.digits.isEmpty || size < -5 then some 0
  else if 310 < size then none
  else
    let value := digitsValue d.digits
    let num := value * Nat.pow 10 d.exponent.toNat
    let den := Nat.pow 10 (-d.exponent).toNat
    if den * doubleBound ≤ num then none
    else
      let whole : Int := nearestWhole num den
      some (if d.negative then -whole else whole)

end Json

end DottedNames
