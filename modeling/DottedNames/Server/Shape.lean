import DottedNames.Json.Number

/-!
# Shapes of parameters

The parameters of a request are checked against a shape before anything is
done with them. A shape says of which type a value has to be. `null` fits
every shape and stands for the default; members that a record does not list
are passed over; the name of a member counts without regard to case. Whole
numbers have to be written as whole numbers.

Where a name is repeated, each of its values has to fit, and a later value
goes over an earlier one. Of a member whose shape is `settled` only the last
value has to fit.

`reach` gives the values found by a path of member names, in order, and
`textAt`, `optionalTextAt` and `unsignedAt` read what is found.
-/

namespace DottedNames

namespace Server

/-- What a value has to look like. -/
inductive Shape where
  /-- A value with numbers that are near to a double. -/
  | anything
  /-- A value that is not looked into. -/
  | unread
  | flag
  | text
  /-- A whole number from 0 to 2³² - 1. -/
  | unsigned
  /-- A whole number from -2³¹ to 2³¹ - 1. -/
  | int32
  /-- A whole number from -2⁶³ to 2⁶³ - 1. -/
  | int64
  /-- A 32-bit whole number or a text. -/
  | token
  /-- A truth value, or what another shape wants. -/
  | flagOr (other : Shape)
  /-- What another shape wants, of the last value alone. -/
  | settled (shape : Shape)
  | listOf (item : Shape)
  | record (fields : List (String × Shape))
deriving Repr

/-- A member name without regard to case. Beside the ASCII letters two other
characters fold to one: the long s and the Kelvin sign. -/
def foldCase (name : Text) : Text :=
  (Utf8.pieces name).flatMap fun
    | .character 0x17f _ => text "s"
    | .character 0x212a _ => text "k"
    | piece => piece.bytes.map Byte.toLower

/-- The values of the members with a name, in order. -/
def valuesOf (name : String) (members : List (Text × Json)) : List Json :=
  (members.filter fun m => foldCase m.1 == foldCase (text name)).map Prod.snd

/-- Whether a value is a whole number from `-half` to `half - 1`. -/
def isIntegerWithin (half : Nat) : Json → Bool
  | .number literal =>
    match Json.integer? literal with
    | some n => -(half : Int) ≤ n && n < (half : Int)
    | none => false
  | _ => false

/-- Whether a value is a whole number that 32 bits can hold. -/
def isInt32 (value : Json) : Bool := isIntegerWithin Numeral.half32 value

/-- Whether a value is a natural number written without a sign, up to a bound. -/
def isNaturalUpTo (high : Nat) : Json → Bool
  | .number literal =>
    match Json.natural? literal with
    | some n => n ≤ high
    | none => false
  | _ => false

mutual

/-- Whether every number in a value has a double nearest to it. -/
def hasValue : Json → Bool
  | .number literal => (Json.wholePart? literal).isSome
  | .array items => allHaveValue items
  | .object members => membersHaveValue members
  | _ => true

/-- Whether every number in a list of values has a double nearest to it. -/
def allHaveValue : List Json → Bool
  | [] => true
  | item :: items => hasValue item && allHaveValue items

/-- Whether every number in a list of members has a double nearest to it. -/
def membersHaveValue : List (Text × Json) → Bool
  | [] => true
  | (_, value) :: members => hasValue value && membersHaveValue members

end

/-- Those of the values of a member that have to fit its shape. -/
def Shape.bound : Shape → List Json → List Json
  | .settled _, values => values.getLast?.toList
  | _, values => values

mutual

/-- Whether a value fits a shape. -/
def Shape.fits : Shape → Json → Bool
  | _, .null => true
  | .anything, value => hasValue value
  | .unread, _ => true
  | .flag, .bool _ => true
  | .text, .string _ => true
  | .unsigned, value => isNaturalUpTo (Numeral.word32 - 1) value
  | .int32, value => isInt32 value
  | .int64, value => isIntegerWithin Numeral.half64 value
  | .token, .string _ => true
  | .token, value => isInt32 value
  | .flagOr _, .bool _ => true
  | .flagOr other, value => other.fits value
  | .settled shape, value => shape.fits value
  | .listOf item, .array items => items.all item.fits
  | .record fields, .object members => fieldsFit fields members
  | _, _ => false

/-- Whether the members of an object fit the fields of a record. -/
def fieldsFit : List (String × Shape) → List (Text × Json) → Bool
  | [], _ => true
  | (name, shape) :: fields, members =>
    (shape.bound (valuesOf name members)).all shape.fits && fieldsFit fields members

end

/-- The values a path of member names leads to, in order. -/
def reach (path : List String) (value : Json) : List Json :=
  path.foldl
    (fun values name => values.flatMap fun
      | .object members => valuesOf name members
      | _ => [])
    [value]

/-- The text that a value is. -/
def textOf? : Json → Option Text
  | .string s => some s
  | _ => none

/-- The natural number that a value is. -/
def naturalOf? : Json → Option Nat
  | .number literal => Json.natural? literal
  | _ => none

/-- The last text that a path leads to, or the empty one. -/
def textAt (path : List String) (value : Json) : Text :=
  ((reach path value).filterMap textOf?).getLast?.getD []

/-- The text that a path leads to last, none when it is `null` or missing. -/
def optionalTextAt (path : List String) (value : Json) : Option Text :=
  (reach path value).getLast?.bind textOf?

/-- The last number from 0 to 2³² - 1 that a path leads to, or 0. -/
def unsignedAt (path : List String) (value : Json) : UInt32 :=
  (((reach path value).filterMap naturalOf?).getLast?.getD 0).toUInt32

/-- The items of the list that a path leads to last. -/
def itemsAt (path : List String) (value : Json) : List Json :=
  match (reach path value).getLast? with
  | some (.array items) => items
  | _ => []

end Server

end DottedNames
