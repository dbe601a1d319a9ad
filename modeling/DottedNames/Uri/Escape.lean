import DottedNames.Text.Basic

/-!
# Percent escapes

A byte of a URI can be written as a percent sign and two hexadecimal digits of
either case. Where that is allowed, and which bytes may stand as themselves,
depends on the part of the URI. A path, a fragment and a user name take every
escape and every byte. A host takes escapes of bytes outside ASCII, and of the
percent sign; a zone takes escapes of host bytes, of the space and of the
percent sign; and in both only some ASCII bytes stand as themselves.
-/

namespace DottedNames

namespace Uri

/-- The parts of a URI with rules of their own for escapes. -/
inductive Part where
  | ordinary
  | host
  | zone
deriving DecidableEq, Repr

/-- The ASCII bytes that may stand in a host. -/
def isHostByte (b : UInt8) : Bool :=
  Byte.isAlnum b || (text "!$&'()*+,;=:[]<>\"-_.~").contains b

/-- An escape that is refused, or a byte that may not stand as itself. -/
inductive EscapeFault where
  | badEscape (shown : Text)
  | badHostByte (byte : UInt8)
deriving DecidableEq, Repr

/-- Whether the escape with two given digits may be used in a part. -/
def Part.takesEscape (part : Part) (high low : UInt8) (value : Nat) : Bool :=
  let isPercent := high == 0x32 && low == 0x35
  match part with
  | .ordinary => true
  | .host => 0x80 ≤ value || isPercent
  | .zone => isPercent || value == 0x20 || isHostByte value.toUInt8

/-- Whether a byte may stand as itself in a part. -/
def Part.takesByte (part : Part) (b : UInt8) : Bool :=
  match part with
  | .ordinary => true
  | .host | .zone => 0x80 ≤ b || isHostByte b

/-- The text with its escapes replaced by the bytes they stand for. -/
def unescape (part : Part) : Text → Except EscapeFault Text
  | [] => .ok []
  | b :: s =>
    if b == Byte.percent then
      match s with
      | high :: low :: rest =>
        match Byte.hexValue? high, Byte.hexValue? low with
        | some h, some l =>
          if part.takesEscape high low (h * 16 + l) then
            (unescape part rest).map ((h * 16 + l).toUInt8 :: ·)
          else .error (.badEscape [b, high, low])
        | _, _ => .error (.badEscape [b, high, low])
      | _ => .error (.badEscape (b :: s))
    else if part.takesByte b then (unescape part s).map (b :: ·)
    else .error (.badHostByte b)

end Uri

end DottedNames
