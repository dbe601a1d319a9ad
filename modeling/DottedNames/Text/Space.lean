import DottedNames.Text.Utf8

/-!
# White space and indentation

White space is a property of characters: the six ASCII controls and blanks,
NEL, the no-break space and the other spaces and separators of Unicode. A
stray byte is no character, so it is never white space, even when its value
is that of NEL or the no-break space.

The indentation of a line is the number of bytes in front of its first
character that is not white space; a blank line is all indentation.

## Main results

* `leadingBlanks_append` — a text is its leading white space and what follows.
* `indent_le_length` — the indentation lies inside the line.
-/

namespace DottedNames

/-- The characters with the Unicode property `White_Space`. -/
def isSpace (scalar : Nat) : Bool :=
  0x09 ≤ scalar && scalar ≤ 0x0d || scalar == 0x20 || scalar == 0x85 || scalar == 0xa0 ||
    scalar == 0x1680 || 0x2000 ≤ scalar && scalar ≤ 0x200a || scalar == 0x2028 ||
    scalar == 0x2029 || scalar == 0x202f || scalar == 0x205f || scalar == 0x3000

/-- A piece that is a white space character. -/
def Piece.isBlank (piece : Piece) : Bool := piece.satisfies isSpace

namespace Text

/-- The white space a text begins with. -/
def leadingBlanks (s : Text) : Text :=
  ((Utf8.pieces s).takeWhile Piece.isBlank).flatMap Piece.bytes

/-- The number of bytes before the first character that is not white space,
or the length of a blank text. -/
def indent (s : Text) : Nat := (leadingBlanks s).length

/-- The text without the white space at its two ends. -/
def trim (s : Text) : Text :=
  ((((Utf8.pieces s).dropWhile Piece.isBlank).reverse.dropWhile Piece.isBlank).reverse).flatMap
    Piece.bytes

/-- A text is its leading white space and what follows. -/
theorem leadingBlanks_append (s : Text) :
    leadingBlanks s ++ ((Utf8.pieces s).dropWhile Piece.isBlank).flatMap Piece.bytes = s := by
  rw [leadingBlanks, ← List.flatMap_append, List.takeWhile_append_dropWhile,
    Utf8.flatMap_bytes_pieces]

/-- The indentation lies inside the line. -/
theorem indent_le_length (s : Text) : indent s ≤ s.length := by
  have hLen := congrArg List.length (leadingBlanks_append s)
  rw [List.length_append] at hLen
  unfold indent
  omega

end Text

end DottedNames
