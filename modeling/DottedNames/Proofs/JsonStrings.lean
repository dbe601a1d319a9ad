import DottedNames.Json.Reader
import DottedNames.Proofs.Characters

/-!
# Written strings

A character of a string is written in one of three ways: as it is, as a backslash with
a letter, or as a backslash with `u` and the digits of its scalar value. `Writes` lists
them with the bytes that are meant. Each of them is read back as these bytes, and is
well-formed UTF-8; a written string is pieces written one behind the other, so both
hold of the whole of it.

## Main results

* `writes_piece` — how a piece of a text is written.
* `Reads.flatMap` — reading what was written piece by piece.
* `readString_escaped` — a written string is read back, repaired.
* `isValid_quoted` — a written string is well-formed UTF-8.
-/

namespace DottedNames

namespace Json

/-- Bytes that stand for themselves in a written string. -/
def isPlain (b : UInt8) : Bool := 0x20 ≤ b && b != Byte.doubleQuote && b != Byte.backslash

/-- The ways to write a character, with the bytes that are meant. -/
inductive Writes : (written meant : Text) → Prop
  | plain {bytes : Text} (valid : Utf8.isValid bytes = true)
      (plain : ∀ b ∈ bytes, isPlain b = true) : Writes bytes bytes
  | letter {e b : UInt8} (ascii : e < 0x80) (other : e ≠ 0x75) (means : escapedByte? e = some b) :
      Writes [Byte.backslash, e] [b]
  | code {n : Nat} (small : n < 0xd800) : Writes (text "\\u" ++ Text.hex 4 n) (Utf8.encode n)

theorem isPlain_iff (b : UInt8) :
    isPlain b = true ↔ 0x20 ≤ b.toNat ∧ b.toNat ≠ 0x22 ∧ b.toNat ≠ 0x5c := by
  simp [isPlain, Byte.doubleQuote, Byte.backslash, UInt8.le_iff_toNat_le, ← UInt8.toNat_inj,
    and_assoc]

/-- The bytes of a character that is no control, quotation mark or backslash. -/
theorem isPlain_of_form {scalar : Nat} {bytes : Text} (h : Utf8.Form scalar bytes)
    (hControl : 0x20 ≤ scalar) (hQuote : scalar ≠ 0x22) (hBackslash : scalar ≠ 0x5c) :
    ∀ b ∈ bytes, isPlain b = true := by
  intro b hb
  rw [isPlain_iff]
  obtain ⟨a, rfl, rfl⟩ | hHigh := h.ascii_or_high
  · rw [List.mem_singleton.1 hb]
    exact ⟨hControl, hQuote, hBackslash⟩
  · have := hHigh b hb
    omega

/-- How a piece of a text is written. -/
theorem writes_piece {s : Text} {piece : Piece} (h : piece ∈ Utf8.pieces s) :
    Writes (escapePiece piece) (Utf8.shown piece) := by
  cases piece with
  | stray byte =>
      have hPlain : Utf8.replacement.all isPlain = true := by decide
      exact .plain (by decide : Utf8.isValid Utf8.replacement = true) (List.all_eq_true.1 hPlain)
  | character scalar bytes =>
      have hForm := Utf8.form_of_mem_pieces h
      simp only [escapePiece, Utf8.shown, ← hForm.encode]
      unfold escapeScalar
      split
      case h_8 hQuote hBackslash _ _ _ _ _ =>
        split
        · next hCode =>
            simp only [Bool.or_eq_true, decide_eq_true_eq, beq_iff_eq] at hCode
            exact .code (by omega)
        · next hPlain =>
            simp only [Bool.or_eq_true, decide_eq_true_eq, beq_iff_eq] at hPlain
            rw [hForm.encode]
            exact .plain hForm.isValid
              (isPlain_of_form hForm (by omega) (by simpa using hQuote) (by simpa using hBackslash))
      all_goals exact .letter (by decide) (by decide) (by decide)

/-! ## Reading what was written -/

/-- What is written is read as units that make up what is meant, whatever comes
behind. -/
def Reads (written meant : Text) : Prop :=
  ∃ units : List StringUnit,
    (∀ rest, readUnits (written ++ rest) =
      (readUnits rest).map fun (later, rest) => (units ++ later, rest)) ∧
    ∀ later, assemble (units ++ later) = meant ++ assemble later

theorem Reads.nil : Reads [] [] := ⟨[], fun rest => by simp, fun later => rfl⟩

theorem Reads.append {w m w' m' : Text} (h : Reads w m) (h' : Reads w' m') :
    Reads (w ++ w') (m ++ m') := by
  obtain ⟨units, hRead, hMeant⟩ := h
  obtain ⟨units', hRead', hMeant'⟩ := h'
  refine ⟨units ++ units', fun rest => ?_, fun later => ?_⟩
  · rw [List.append_assoc, hRead, hRead', Option.map_map]
    simp [Function.comp_def]
  · rw [List.append_assoc, hMeant, hMeant', List.append_assoc]

theorem Reads.flatMap {α : Type} {xs : List α} {f g : α → Text} (h : ∀ x ∈ xs, Reads (f x) (g x)) :
    Reads (xs.flatMap f) (xs.flatMap g) := by
  induction xs with
  | nil => exact .nil
  | cons x xs ih => exact (h x (by simp)).append (ih fun y hy => h y (by simp [hy]))

theorem reads_plain {bytes : Text} (h : ∀ b ∈ bytes, isPlain b = true) : Reads bytes bytes := by
  induction bytes with
  | nil => exact .nil
  | cons b bytes ih =>
      have hb := h b (by simp)
      simp only [isPlain, Bool.and_eq_true, decide_eq_true_eq, bne_iff_ne, ne_eq] at hb
      have hOne : Reads [b] [b] := by
        refine ⟨[.byte b], fun rest => ?_, fun later => rfl⟩
        have hControl : ¬ b < 0x20 := UInt8.not_lt.2 hb.1.1
        rw [List.singleton_append, readUnits.eq_def]
        simp [hb, hControl]
      exact hOne.append (ih fun c hc => h c (by simp [hc]))

theorem reads_letter {e b : UInt8} (hOther : e ≠ 0x75) (h : escapedByte? e = some b) :
    Reads [Byte.backslash, e] [b] := by
  refine ⟨[.byte b], fun rest => ?_, fun later => rfl⟩
  rw [List.cons_append, readUnits.eq_def]
  simp [hOther, h, Byte.backslash, Byte.doubleQuote]

theorem codeUnit?_hex {n : Nat} (h : n < 0x10000) :
    codeUnit? (Byte.hexDigit (n / 16 / 16 / 16 % 16)) (Byte.hexDigit (n / 16 / 16 % 16))
      (Byte.hexDigit (n / 16 % 16)) (Byte.hexDigit (n % 16)) = some n := by
  have hDigit : ∀ d, d < 16 → Byte.hexValue? (Byte.hexDigit d) = some d := by decide
  have hMod : ∀ m, m % 16 < 16 := fun m => Nat.mod_lt m (by omega)
  simp only [codeUnit?, hDigit _ (hMod _), Option.bind_eq_bind, Option.bind_some, Option.pure_def,
    Option.some.injEq]
  omega

theorem reads_code {n : Nat} (h : n < 0xd800) :
    Reads (text "\\u" ++ Text.hex 4 n) (Utf8.encode n) := by
  refine ⟨[.code n], fun rest => ?_, fun later => ?_⟩
  · have hText : text "\\u" = [Byte.backslash, 0x75] := by decide
    simp [hText, Text.hex, readUnits, codeUnit?_hex (by omega : n < 0x10000), Byte.backslash,
      Byte.doubleQuote]
  · have hHigh : isHighSurrogate n = false := by simp [isHighSurrogate]; omega
    have hLow : isLowSurrogate n = false := by simp [isLowSurrogate]; omega
    cases later with
    | nil => simp [assemble, hHigh, hLow]
    | cons unit later => cases unit <;> simp [assemble, hHigh, hLow]

theorem Writes.reads {written meant : Text} (h : Writes written meant) : Reads written meant := by
  cases h with
  | plain _ hPlain => exact reads_plain hPlain
  | letter _ hOther hMeans => exact reads_letter hOther hMeans
  | code hSmall => exact reads_code hSmall

theorem readString_of_reads {written meant : Text} (h : Reads written meant) (rest : Text) :
    readString (written ++ Byte.doubleQuote :: rest) = some (Utf8.repair meant, rest) := by
  obtain ⟨units, hRead, hMeant⟩ := h
  have hAll := hMeant []
  simp only [List.append_nil, assemble] at hAll
  have hEnd : readUnits (Byte.doubleQuote :: rest) = some ([], rest) := by
    rw [readUnits.eq_def]
    rfl
  simp [readString, hRead, hEnd, hAll]

/-- What stands between the quotation marks of a written string. -/
def escaped (s : Text) : Text := (Utf8.pieces s).flatMap escapePiece

theorem quoted_append (s rest : Text) :
    quoted s ++ rest = Byte.doubleQuote :: (escaped s ++ Byte.doubleQuote :: rest) := by
  simp [quoted, escaped]

/-- A written string is read back, with its stray bytes replaced. -/
theorem readString_escaped (s rest : Text) :
    readString (escaped s ++ Byte.doubleQuote :: rest) = some (Utf8.repair s, rest) := by
  have hReads : Reads (escaped s) (Utf8.repair s) := by
    rw [Utf8.repair_eq]
    exact .flatMap fun piece hPiece => (writes_piece hPiece).reads
  rw [readString_of_reads hReads, Utf8.repair_of_isValid (Utf8.isValid_repair s)]

/-! ## Well-formedness -/

theorem Writes.isValid {written meant : Text} (h : Writes written meant) :
    Utf8.isValid written = true := by
  cases h with
  | plain hValid _ => exact hValid
  | letter hAscii _ _ =>
      exact @Utf8.isValid_append [Byte.backslash] _ (by decide) (Utf8.Form.one hAscii).isValid
  | code hSmall =>
      have hDigit : ∀ d, d < 16 → Byte.hexDigit d < 0x80 := by decide
      have hMod : ∀ m, m % 16 < 16 := fun m => Nat.mod_lt m (by omega)
      refine Utf8.isValid_append (by decide) (Utf8.isValid_of_ascii ?_)
      simp [Text.hex, hDigit _ (hMod _)]

theorem isValid_quoted (s : Text) : Utf8.isValid (quoted s) = true := by
  have hEscaped : Utf8.isValid (escaped s) = true :=
    Utf8.isValid_flatMap fun piece hPiece => (writes_piece hPiece).isValid
  have hQuoted : quoted s = [Byte.doubleQuote] ++ escaped s ++ [Byte.doubleQuote] := rfl
  rw [hQuoted]
  exact Utf8.isValid_append (Utf8.isValid_append (by decide) hEscaped) (by decide)

end Json

end DottedNames
