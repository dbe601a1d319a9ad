import DottedNames.Text.Printable

/-!
# Quotations

Messages quote the text they are about. Between the quotation marks a
printable character stands for itself; the mark and the backslash are written
after a backslash; seven controls have a letter; every other character is
written by its number, and a byte outside any character as `\x` and two
hexadecimal digits. So a quotation is printable, and no two texts share one.

`quoteRaw` is the form for names: a text without controls and without
backquotes is put between backquotes as it is.
-/

namespace DottedNames

/-- The letter that stands for a control character after a backslash. -/
def controlLetter? : Nat → Option UInt8
  | 0x07 => some 0x61
  | 0x08 => some 0x62
  | 0x0c => some 0x66
  | 0x0a => some 0x6e
  | 0x0d => some 0x72
  | 0x09 => some 0x74
  | 0x0b => some 0x76
  | _ => none

namespace Text

/-- A character inside a quotation with the given mark. -/
def quoteScalar (mark : Nat) (scalar : Nat) : Text :=
  if scalar == mark || scalar == 0x5c then Byte.backslash :: Utf8.encode scalar
  else if isPrintable scalar then Utf8.encode scalar
  else match controlLetter? scalar with
    | some letter => [Byte.backslash, letter]
    | none =>
      if scalar < 0x20 || scalar == 0x7f then text "\\x" ++ hex 2 scalar
      else if scalar < 0x10000 then text "\\u" ++ hex 4 scalar
      else text "\\U" ++ hex 8 scalar

/-- One piece of a text inside double quotation marks. -/
def quotePiece : Piece → Text
  | .character scalar _ => quoteScalar 0x22 scalar
  | .stray byte => text "\\x" ++ hexByte byte

/-- The text between double quotation marks. -/
def quote (s : Text) : Text :=
  [Byte.doubleQuote] ++ (Utf8.pieces s).flatMap quotePiece ++ [Byte.doubleQuote]

/-- A single character between apostrophes. -/
def quoteChar (scalar : Nat) : Text := [0x27] ++ quoteScalar 0x27 scalar ++ [0x27]

/-- Pieces that can stand between backquotes: no stray byte, no control but
the tab, no backquote, no byte order mark. -/
def isRawPiece : Piece → Bool
  | .character scalar _ =>
    (0x20 ≤ scalar || scalar == 0x09) && scalar != 0x60 && scalar != 0x7f && scalar != 0xfeff
  | .stray _ => false

/-- The text between backquotes when it can stand there, else quoted. -/
def quoteRaw (s : Text) : Text :=
  if (Utf8.pieces s).all isRawPiece then [0x60] ++ s ++ [0x60] else quote s

end Text

end DottedNames
