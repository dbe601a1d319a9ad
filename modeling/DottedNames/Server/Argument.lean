import DottedNames.Json.Number
import DottedNames.Uri.Basic

/-!
# Command arguments

A command takes two arguments, the URI of a document and a line counted from
zero. Over the wire an argument is any value of the exchange format, where a
number is a double-precision number; inside the server a line may also be a
machine integer or the unsigned line of an editor position. A number with a
fraction loses it, and one beyond the 64-bit range becomes the least integer.

The faults are reported in the order count, URI type, line type, URI.
-/

namespace DottedNames

namespace Server

/-- An argument of a command. -/
inductive Argument where
  | json (value : Json)
  | integer (value : Int64)
  | unsigned (value : UInt32)
deriving Repr

namespace Argument

/-- The name of the type of an argument, as messages give it. -/
def typeName : Argument → Text
  | json .null => text "<nil>"
  | json (.bool _) => text "bool"
  | json (.number _) => text "float64"
  | json (.string _) => text "string"
  | json (.array _) => text "[]interface \x7b\x7d"
  | json (.object _) => text "map[string]interface \x7b\x7d"
  | integer _ => text "int"
  | unsigned _ => text "uint32"

/-- Whether a 64-bit integer can hold a number. -/
def fits64 (n : Int) : Bool := -(Numeral.half64 : Int) ≤ n && n < (Numeral.half64 : Int)

/-- A whole number as a 64-bit integer; the least one when it does not fit. -/
def clampToLeast (n : Int) : Int64 := if fits64 n then Int64.ofInt n else Int64.minValue

/-- The line an argument stands for. -/
def line? : Argument → Option Int64
  | json (.number literal) =>
    match Json.wholePart? literal with
    | some n => some (clampToLeast n)
    | none => some Int64.minValue
  | integer n => some n
  | unsigned n => some (Int64.ofNat n.toNat)
  | json _ => none

/-- The text an argument stands for. -/
def text? : Argument → Option Text
  | json (.string s) => some s
  | _ => none

end Argument

/-- Why the arguments of a command are refused. -/
inductive ArgumentFault where
  | count (received : Nat)
  | uriType (typeName : Text)
  | lineType (typeName : Text)
  | uri (uri : Text) (refusal : Uri.Refusal)
deriving DecidableEq, Repr

/-- The wording of a fault. -/
def ArgumentFault.message : ArgumentFault → Text
  | count received => text "expected 2 arguments (uri, line), got " ++ Text.decimal received
  | uriType name => text "uri argument is " ++ name ++ text ", not a string"
  | lineType name => text "line argument is " ++ name ++ text ", not a number"
  | uri shown refusal => text "parse uri " ++ Text.quote shown ++ text ": " ++ refusal.message

/-- The document path and the line that the arguments of a command name. -/
def readArguments (arguments : List Argument) : Except ArgumentFault (Text × Int64) :=
  match arguments with
  | [first, second] =>
    match first.text? with
    | none => .error (.uriType first.typeName)
    | some uri =>
      match second.line? with
      | none => .error (.lineType second.typeName)
      | some line =>
        match Uri.toPath uri with
        | .error refusal => .error (.uri uri refusal)
        | .ok path => .ok (path, line)
  | _ => .error (.count arguments.length)

end Server

end DottedNames
