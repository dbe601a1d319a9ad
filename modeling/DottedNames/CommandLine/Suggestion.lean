import DottedNames.Text.Utf8

/-!
# Suggestions for a misspelt word

A name is suggested for a word when the two differ by at most two edits, or
when the word is a beginning of the name; capitals do not count. Edits insert,
delete or replace one byte. Names are ASCII, so of the small form of a
character outside ASCII only the number of its bytes matters, and only the
characters for which that number changes are listed; two of them become ASCII
letters. In a word that is not all ASCII a stray byte counts as U+FFFD.
-/

namespace DottedNames

namespace CommandLine

/-- Characters whose small form takes another number of bytes, with that form. -/
def resizedSmallForms : List (Nat × Nat) :=
  [(0x130, 0x69), (0x23a, 0x2c65), (0x23e, 0x2c66), (0x1e9e, 0xdf), (0x2126, 0x3c9),
   (0x212a, 0x6b), (0x212b, 0xe5), (0x2c62, 0x26b), (0x2c64, 0x27d), (0x2c6d, 0x251),
   (0x2c6e, 0x271), (0x2c6f, 0x250), (0x2c70, 0x252), (0x2c7e, 0x23f), (0x2c7f, 0x240),
   (0xa78d, 0x265), (0xa7aa, 0x266), (0xa7ab, 0x25c), (0xa7ac, 0x261), (0xa7ad, 0x26c),
   (0xa7ae, 0x26a), (0xa7b0, 0x29e), (0xa7b1, 0x287), (0xa7b2, 0x29d), (0xa7c5, 0x282),
   (0xa7cb, 0x264), (0xa7dc, 0x19b)]

/-- One piece of a word in small letters. -/
def lowerPiece : Piece → Text
  | .character scalar bytes =>
    match resizedSmallForms.lookup scalar with
    | some small => Utf8.encode small
    | none => bytes.map Byte.toLower
  | .stray _ => Utf8.replacement

/-- A word in small letters, as far as comparing it with an ASCII name goes. -/
def lowerWord (word : Text) : Text := (Utf8.pieces word).flatMap lowerPiece

/-- The rest of a row of the edit table: the byte `a` of one word against the
bytes of the other, from the row above and the entry to the left. -/
def nextRow (a : UInt8) : Text → List Nat → Nat → List Nat
  | b :: t, diagonal :: up :: rest, left =>
    let entry := min (if a = b then diagonal else diagonal + 1) (min (up + 1) (left + 1))
    entry :: nextRow a t (up :: rest) entry
  | _, _, _ => []

/-- The row of the edit table for one more byte. -/
def addRow (t : Text) (row : List Nat) (a : UInt8) : List Nat :=
  let first := row.headD 0 + 1
  first :: nextRow a t row first

/-- The least number of edits that make one word into the other. -/
def editDistance (s t : Text) : Nat :=
  (s.foldl (addRow t) (List.range (t.length + 1))).getLastD 0

/-- The greatest number of edits for which a name is suggested. -/
def maxEdits : Nat := 2

/-- Whether a name is suggested for a word. -/
def suggests (word name : Text) : Bool :=
  let word := lowerWord word
  let name := lowerWord name
  editDistance word name ≤ maxEdits || word.isPrefixOf name

/-- The names suggested for a word, in order. -/
def suggestions (word : Text) (names : List Text) : List Text := names.filter (suggests word)

end CommandLine

end DottedNames
