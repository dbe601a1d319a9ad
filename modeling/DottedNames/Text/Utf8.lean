import DottedNames.Text.Basic

/-!
# Characters of a byte text

A byte text is read as UTF-8 one piece at a time. A piece is a character, the
whole of a well-formed sequence with the scalar value it stands for, or a
single stray byte that begins no well-formed sequence. Overlong forms,
surrogates and values past U+10FFFF are not well formed, and neither is a
sequence cut short by the end of the text.

`pieces` reads a whole text. It keeps a count of bytes that already belong to
the piece in front, so that the recursion is on the list of bytes.

## Main results

* `bytes_front` — a piece is made of the bytes it was read from.
* `flatMap_bytes_pieces` — the pieces of a text, put together, are the text.
-/

namespace DottedNames

/-- What one step of reading yields: a character or a byte outside any. -/
inductive Piece where
  /-- A well-formed sequence, with its scalar value. -/
  | character (scalar : Nat) (bytes : Text)
  /-- A byte that begins no well-formed sequence. -/
  | stray (byte : UInt8)
deriving DecidableEq, Repr

namespace Piece

/-- The bytes a piece occupies in the text. -/
def bytes : Piece → Text
  | character _ bytes => bytes
  | stray byte => [byte]

/-- The number of bytes a piece occupies. -/
def width (piece : Piece) : Nat := piece.bytes.length

/-- Whether a piece is a character for which a test holds. -/
def satisfies (test : Nat → Bool) : Piece → Bool
  | character scalar _ => test scalar
  | stray _ => false

end Piece

namespace Utf8

/-- Continuation bytes, `10xxxxxx`. -/
def isTail (b : UInt8) : Bool := 0x80 ≤ b && b ≤ 0xbf

/-- Two bytes that form a character: U+0080 to U+07FF. -/
def isPair (a b : UInt8) : Bool := 0xc2 ≤ a && a ≤ 0xdf && isTail b

/-- Three bytes that form a character: U+0800 to U+FFFF without surrogates. -/
def isTriple (a b c : UInt8) : Bool :=
  isTail c &&
    (a == 0xe0 && 0xa0 ≤ b && b ≤ 0xbf ||
      0xe1 ≤ a && a ≤ 0xec && isTail b ||
      a == 0xed && 0x80 ≤ b && b ≤ 0x9f ||
      0xee ≤ a && a ≤ 0xef && isTail b)

/-- Four bytes that form a character: U+10000 to U+10FFFF. -/
def isQuad (a b c d : UInt8) : Bool :=
  isTail c && isTail d &&
    (a == 0xf0 && 0x90 ≤ b && b ≤ 0xbf ||
      0xf1 ≤ a && a ≤ 0xf3 && isTail b ||
      a == 0xf4 && 0x80 ≤ b && b ≤ 0x8f)

/-- The six payload bits of a continuation byte. -/
def tailBits (b : UInt8) : Nat := b.toNat % 0x40

/-- The piece that begins with byte `a` when `s` follows it. -/
def front (a : UInt8) (s : Text) : Piece :=
  if a < 0x80 then .character a.toNat [a]
  else match s with
    | b :: c :: d :: _ =>
      if isPair a b then .character (a.toNat % 0x20 * 0x40 + tailBits b) [a, b]
      else if isTriple a b c then
        .character ((a.toNat % 0x10 * 0x40 + tailBits b) * 0x40 + tailBits c) [a, b, c]
      else if isQuad a b c d then
        .character (((a.toNat % 0x08 * 0x40 + tailBits b) * 0x40 + tailBits c) * 0x40
          + tailBits d) [a, b, c, d]
      else .stray a
    | [b, c] =>
      if isPair a b then .character (a.toNat % 0x20 * 0x40 + tailBits b) [a, b]
      else if isTriple a b c then
        .character ((a.toNat % 0x10 * 0x40 + tailBits b) * 0x40 + tailBits c) [a, b, c]
      else .stray a
    | [b] =>
      if isPair a b then .character (a.toNat % 0x20 * 0x40 + tailBits b) [a, b]
      else .stray a
    | [] => .stray a

/-- The pieces of a text whose first `skip` bytes already belong to a piece
in front of it. -/
def piecesAfter : Nat → Text → List Piece
  | _, [] => []
  | skip + 1, _ :: s => piecesAfter skip s
  | 0, a :: s => front a s :: piecesAfter ((front a s).width - 1) s

/-- The characters and stray bytes of a text, in order. -/
def pieces (s : Text) : List Piece := piecesAfter 0 s

/-- Whether a text is well-formed UTF-8. -/
def isValid (s : Text) : Bool := (pieces s).all (Piece.satisfies fun _ => true)

/-- The UTF-8 form of a scalar value. -/
def encode (scalar : Nat) : Text :=
  if scalar < 0x80 then [scalar.toUInt8]
  else if scalar < 0x800 then
    [(0xc0 + scalar / 0x40).toUInt8, (0x80 + scalar % 0x40).toUInt8]
  else if scalar < 0x10000 then
    [(0xe0 + scalar / 0x1000).toUInt8, (0x80 + scalar / 0x40 % 0x40).toUInt8,
      (0x80 + scalar % 0x40).toUInt8]
  else
    [(0xf0 + scalar / 0x40000).toUInt8, (0x80 + scalar / 0x1000 % 0x40).toUInt8,
      (0x80 + scalar / 0x40 % 0x40).toUInt8, (0x80 + scalar % 0x40).toUInt8]

/-- U+FFFD, which stands for a byte that cannot be shown. -/
def replacement : Text := [0xef, 0xbf, 0xbd]

/-- The text with every stray byte replaced by U+FFFD. -/
def repair (s : Text) : Text :=
  (pieces s).flatMap fun
    | .character _ bytes => bytes
    | .stray _ => replacement

/-! ## A text is its pieces -/

/-- A piece is made of the bytes it was read from. -/
theorem bytes_front (a : UInt8) (s : Text) :
    ∃ rest, a :: s = (front a s).bytes ++ rest := by
  unfold front
  split
  · exact ⟨s, rfl⟩
  · split
    · next b c d rest =>
        split
        · exact ⟨c :: d :: rest, rfl⟩
        · split
          · exact ⟨d :: rest, rfl⟩
          · split
            · exact ⟨rest, rfl⟩
            · exact ⟨b :: c :: d :: rest, rfl⟩
    · next b c =>
        split
        · exact ⟨[c], rfl⟩
        · split
          · exact ⟨[], rfl⟩
          · exact ⟨[b, c], rfl⟩
    · next b =>
        split
        · exact ⟨[], rfl⟩
        · exact ⟨[b], rfl⟩
    · exact ⟨[], rfl⟩

/-- Every piece occupies at least one byte. -/
theorem width_front_pos (a : UInt8) (s : Text) : 0 < (front a s).width := by
  unfold front Piece.width Piece.bytes
  grind

theorem piecesAfter_eq_drop (skip : Nat) (s : Text) :
    piecesAfter skip s = pieces (s.drop skip) := by
  induction skip generalizing s with
  | zero => rfl
  | succ skip ih =>
      cases s with
      | nil => simp [piecesAfter, pieces]
      | cons a s => simpa [piecesAfter] using ih s

/-- Reading a non-empty text yields its front piece and then the pieces of
what follows that piece. -/
theorem pieces_cons (a : UInt8) (s : Text) :
    pieces (a :: s) = front a s :: pieces ((a :: s).drop (front a s).width) := by
  have hPos := width_front_pos a s
  obtain ⟨w, hw⟩ : ∃ w, (front a s).width = w + 1 := ⟨_, (Nat.succ_pred_eq_of_pos hPos).symm⟩
  simp only [pieces, piecesAfter]
  rw [hw, Nat.add_sub_cancel, piecesAfter_eq_drop]
  rfl

/-- No byte is lost by reading: the pieces of a text, put together, are the
text. -/
theorem flatMap_bytes_pieces (s : Text) : (pieces s).flatMap Piece.bytes = s := by
  induction hLen : s.length using Nat.strongRecOn generalizing s with
  | ind n ih =>
      cases s with
      | nil => rfl
      | cons a s =>
          obtain ⟨rest, hRest⟩ := bytes_front a s
          have hDrop : (a :: s).drop (front a s).width = rest := by
            rw [hRest, Piece.width, List.drop_left]
          have hPos := width_front_pos a s
          have hShort : rest.length < n := by
            have := congrArg List.length hRest
            simp only [List.length_append, hLen] at this
            simp only [Piece.width] at hPos
            omega
          rw [pieces_cons, hDrop, List.flatMap_cons, ih _ hShort rest rfl, ← hRest]

end Utf8

end DottedNames
