import DottedNames.Text.Numeral
import DottedNames.Text.Utf8

/-!
# JSON values

The values of the exchange format. A number is kept as the literal it was
written with, since some readers tell `1` from `1.0`; an object keeps its
members in order, repeated names included. Strings are byte texts.

Two written forms are used: `compact`, without any blank, and `indented`, with
one item a line and two spaces a level. Both write a string so that it can
stand inside a web page: quotation mark, backslash, `<`, `>`, `&`, the two line
separators and the controls are escaped, and a stray byte becomes U+FFFD.
-/

namespace DottedNames

/-- A value of the exchange format. -/
inductive Json where
  | null
  | bool (value : Bool)
  /-- A number, as its literal. -/
  | number (literal : Text)
  | string (value : Text)
  | array (items : List Json)
  | object (members : List (Text × Json))
deriving Repr

namespace Json

/-- The number with a given integer value. -/
def ofInt (n : Int) : Json := number (Text.integer n)

/-- The number with a given natural value. -/
def ofNat (n : Nat) : Json := number (Text.decimal n)

/-- A character inside a written string. -/
def escapeScalar (scalar : Nat) (bytes : Text) : Text :=
  match scalar with
  | 0x22 => text "\\\""
  | 0x5c => text "\\\\"
  | 0x08 => text "\\b"
  | 0x0c => text "\\f"
  | 0x0a => text "\\n"
  | 0x0d => text "\\r"
  | 0x09 => text "\\t"
  | _ =>
    if scalar < 0x20 || scalar == 0x3c || scalar == 0x3e || scalar == 0x26 ||
        scalar == 0x2028 || scalar == 0x2029 then
      text "\\u" ++ Text.hex 4 scalar
    else bytes

/-- One piece of a written string. -/
def escapePiece : Piece → Text
  | .character scalar bytes => escapeScalar scalar bytes
  | .stray _ => Utf8.replacement

/-- A written string. -/
def quoted (s : Text) : Text :=
  [Byte.doubleQuote] ++ (Utf8.pieces s).flatMap escapePiece ++ [Byte.doubleQuote]

mutual

/-- The written form without blanks. -/
def compact : Json → Text
  | null => text "null"
  | bool true => text "true"
  | bool false => text "false"
  | number literal => literal
  | string s => quoted s
  | array items => [0x5b] ++ Text.join [0x2c] (compactItems items) ++ [0x5d]
  | object members => [0x7b] ++ Text.join [0x2c] (compactMembers members) ++ [0x7d]

/-- The written forms of the items of an array. -/
def compactItems : List Json → List Text
  | [] => []
  | item :: items => compact item :: compactItems items

/-- The written forms of the members of an object. -/
def compactMembers : List (Text × Json) → List Text
  | [] => []
  | (name, value) :: members =>
    (quoted name ++ [Byte.colon] ++ compact value) :: compactMembers members

end

/-- A line break and the indentation of a level. -/
def newLine (level : Nat) : Text := Byte.newline :: List.replicate (2 * level) Byte.space

/-- Brackets around written items, each item on a line of its own. -/
def block (opening closing : UInt8) (level : Nat) (items : List Text) : Text :=
  if items.isEmpty then [opening, closing]
  else [opening] ++ newLine (level + 1) ++
    Text.join (0x2c :: newLine (level + 1)) items ++ newLine level ++ [closing]

mutual

/-- The written form with one item a line, at a level of indentation. -/
def indentedAt (level : Nat) : Json → Text
  | null => text "null"
  | bool true => text "true"
  | bool false => text "false"
  | number literal => literal
  | string s => quoted s
  | array items => block 0x5b 0x5d level (indentedItems (level + 1) items)
  | object members => block 0x7b 0x7d level (indentedMembers (level + 1) members)

/-- The written forms of the items of an array. -/
def indentedItems (level : Nat) : List Json → List Text
  | [] => []
  | item :: items => indentedAt level item :: indentedItems level items

/-- The written forms of the members of an object. -/
def indentedMembers (level : Nat) : List (Text × Json) → List Text
  | [] => []
  | (name, value) :: members =>
    (quoted name ++ [Byte.colon, Byte.space] ++ indentedAt level value) ::
      indentedMembers level members

end

/-- The written form with one item a line. -/
def indented (value : Json) : Text := indentedAt 0 value

end Json

end DottedNames
