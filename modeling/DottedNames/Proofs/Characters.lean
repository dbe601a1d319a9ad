import DottedNames.Text.Utf8
import Mathlib.Data.List.Basic

/-!
# Well-formed texts

A character has one of four forms, by the number of its bytes. Whatever follows it,
the bytes of a character are read as that character, and they are the UTF-8 form of
its scalar value. So a well-formed text keeps its pieces when something is put behind
it, and putting well-formed texts one behind the other gives a well-formed text.

No two characters begin the same text, because the first byte says how many follow.
Reading therefore finds the character that a text begins with whenever there is one,
and a byte is stray only where there is none.

Replacing the stray bytes of a text makes it well formed, and changes nothing in a
text that is so already.

## Main results

* `Form.pieces_append` — a character is read whatever follows.
* `Form.encode` — the bytes of a character are its UTF-8 form.
* `front_eq_character_iff`, `front_eq_stray_iff` — what a text begins with.
* `pieces_append` — the pieces of a well-formed text and of what follows it.
* `isValid_repair`, `repair_of_isValid` — what repairing does.
-/

namespace DottedNames

namespace Utf8

/-- The forms of a character, with its scalar value and its bytes. -/
inductive Form : Nat → Text → Prop
  | one {a : UInt8} (h : a < 0x80) : Form a.toNat [a]
  | two {a b : UInt8} (h : isPair a b = true) : Form (a.toNat % 0x20 * 0x40 + tailBits b) [a, b]
  | three {a b c : UInt8} (h : isTriple a b c = true) :
      Form ((a.toNat % 0x10 * 0x40 + tailBits b) * 0x40 + tailBits c) [a, b, c]
  | four {a b c d : UInt8} (h : isQuad a b c d = true) :
      Form (((a.toNat % 0x08 * 0x40 + tailBits b) * 0x40 + tailBits c) * 0x40 + tailBits d)
        [a, b, c, d]

theorem Form.of_eq {scalar scalar' : Nat} {bytes bytes' : Text} (h : Form scalar bytes)
    (hEq : Piece.character scalar bytes = .character scalar' bytes') : Form scalar' bytes' := by
  obtain ⟨rfl, rfl⟩ := Piece.character.inj hEq
  exact h

/-- A character that is read has one of the forms. -/
theorem form_front {a : UInt8} {s : Text} {scalar : Nat} {bytes : Text}
    (h : front a s = .character scalar bytes) : Form scalar bytes := by
  unfold front at h
  split at h
  · next hOne => exact (Form.one hOne).of_eq h
  · split at h
    · split at h
      · next hTwo => exact (Form.two hTwo).of_eq h
      · split at h
        · next hThree => exact (Form.three hThree).of_eq h
        · split at h
          · next hFour => exact (Form.four hFour).of_eq h
          · exact absurd h (by simp)
    · split at h
      · next hTwo => exact (Form.two hTwo).of_eq h
      · split at h
        · next hThree => exact (Form.three hThree).of_eq h
        · exact absurd h (by simp)
    · split at h
      · next hTwo => exact (Form.two hTwo).of_eq h
      · exact absurd h (by simp)
    · exact absurd h (by simp)

theorem isPair_bounds {a b : UInt8} (h : isPair a b = true) :
    0xc2 ≤ a.toNat ∧ a.toNat ≤ 0xdf ∧ 0x80 ≤ b.toNat ∧ b.toNat ≤ 0xbf := by
  simp only [isPair, isTail, Bool.and_eq_true, decide_eq_true_eq, UInt8.le_iff_toNat_le,
    UInt8.reduceToNat] at h
  omega

theorem isTriple_bounds {a b c : UInt8} (h : isTriple a b c = true) :
    0xe0 ≤ a.toNat ∧ a.toNat ≤ 0xef ∧ 0x80 ≤ b.toNat ∧ b.toNat ≤ 0xbf ∧
      0x80 ≤ c.toNat ∧ c.toNat ≤ 0xbf ∧ (a.toNat = 0xe0 → 0xa0 ≤ b.toNat) := by
  simp only [isTriple, isTail, Bool.and_eq_true, Bool.or_eq_true, decide_eq_true_eq,
    beq_iff_eq, UInt8.le_iff_toNat_le, ← UInt8.toNat_inj, UInt8.reduceToNat] at h
  omega

theorem isQuad_bounds {a b c d : UInt8} (h : isQuad a b c d = true) :
    0xf0 ≤ a.toNat ∧ a.toNat ≤ 0xf4 ∧ 0x80 ≤ b.toNat ∧ b.toNat ≤ 0xbf ∧
      0x80 ≤ c.toNat ∧ c.toNat ≤ 0xbf ∧ 0x80 ≤ d.toNat ∧ d.toNat ≤ 0xbf ∧
      (a.toNat = 0xf0 → 0x90 ≤ b.toNat) := by
  simp only [isQuad, isTail, Bool.and_eq_true, Bool.or_eq_true, decide_eq_true_eq,
    beq_iff_eq, UInt8.le_iff_toNat_le, ← UInt8.toNat_inj, UInt8.reduceToNat] at h
  omega

/-! ## Reading a character -/

theorem front_two {a b : UInt8} (h : isPair a b = true) (rest : Text) :
    front a (b :: rest) = .character (a.toNat % 0x20 * 0x40 + tailBits b) [a, b] := by
  have hBounds := isPair_bounds h
  have hOne : ¬ a < 0x80 := by
    simp only [UInt8.lt_iff_toNat_lt, UInt8.reduceToNat]
    omega
  match rest with
  | [] | [_] | _ :: _ :: _ => simp [front, hOne, h]

theorem front_three {a b c : UInt8} (h : isTriple a b c = true) (rest : Text) :
    front a (b :: c :: rest) =
      .character ((a.toNat % 0x10 * 0x40 + tailBits b) * 0x40 + tailBits c) [a, b, c] := by
  have hBounds := isTriple_bounds h
  have hOne : ¬ a < 0x80 := by
    simp only [UInt8.lt_iff_toNat_lt, UInt8.reduceToNat]
    omega
  have hTwo : isPair a b = false := by
    rw [Bool.eq_false_iff]
    intro hPair
    have := isPair_bounds hPair
    omega
  match rest with
  | [] | _ :: _ => simp [front, hOne, hTwo, h]

theorem front_four {a b c d : UInt8} (h : isQuad a b c d = true) (rest : Text) :
    front a (b :: c :: d :: rest) =
      .character (((a.toNat % 0x08 * 0x40 + tailBits b) * 0x40 + tailBits c) * 0x40 + tailBits d)
        [a, b, c, d] := by
  have hBounds := isQuad_bounds h
  have hOne : ¬ a < 0x80 := by
    simp only [UInt8.lt_iff_toNat_lt, UInt8.reduceToNat]
    omega
  have hTwo : isPair a b = false := by
    rw [Bool.eq_false_iff]
    intro hPair
    have := isPair_bounds hPair
    omega
  have hThree : isTriple a b c = false := by
    rw [Bool.eq_false_iff]
    intro hTriple
    have := isTriple_bounds hTriple
    omega
  simp [front, hOne, hTwo, hThree, h]

namespace Form

variable {scalar : Nat} {bytes : Text}

/-- The bytes of a character are read as that character, whatever follows. -/
theorem pieces_append (h : Form scalar bytes) (rest : Text) :
    pieces (bytes ++ rest) = .character scalar bytes :: pieces rest := by
  cases h with
  | one hOne => simp [pieces_cons, front, hOne, Piece.width, Piece.bytes]
  | two hTwo => simp [pieces_cons, front_two hTwo, Piece.width, Piece.bytes]
  | three hThree => simp [pieces_cons, front_three hThree, Piece.width, Piece.bytes]
  | four hFour => simp [pieces_cons, front_four hFour, Piece.width, Piece.bytes]

/-- The bytes of a character are the UTF-8 form of its scalar value. -/
theorem encode (h : Form scalar bytes) : Utf8.encode scalar = bytes := by
  cases h with
  | one hOne =>
      simp only [UInt8.lt_iff_toNat_lt, UInt8.reduceToNat] at hOne
      simp [Utf8.encode, hOne]
  | two hTwo =>
      have hBounds := isPair_bounds hTwo
      unfold tailBits
      rw [Utf8.encode, if_neg (by omega), if_pos (by omega)]
      simp only [List.cons.injEq, ← UInt8.toNat_inj, Nat.toUInt8, UInt8.toNat_ofNat', and_true]
      omega
  | three hThree =>
      have hBounds := isTriple_bounds hThree
      unfold tailBits
      rw [Utf8.encode, if_neg (by omega), if_neg (by omega), if_pos (by omega)]
      simp only [List.cons.injEq, ← UInt8.toNat_inj, Nat.toUInt8, UInt8.toNat_ofNat', and_true]
      omega
  | four hFour =>
      have hBounds := isQuad_bounds hFour
      unfold tailBits
      rw [Utf8.encode, if_neg (by omega), if_neg (by omega), if_neg (by omega)]
      simp only [List.cons.injEq, ← UInt8.toNat_inj, Nat.toUInt8, UInt8.toNat_ofNat', and_true]
      omega

/-- A character is one ASCII byte, or has no ASCII byte at all. -/
theorem ascii_or_high (h : Form scalar bytes) :
    (∃ a : UInt8, bytes = [a] ∧ a.toNat = scalar) ∨ ∀ b ∈ bytes, 0x80 ≤ b.toNat := by
  cases h with
  | one hOne => exact Or.inl ⟨_, rfl, rfl⟩
  | two hTwo =>
      have hBounds := isPair_bounds hTwo
      refine Or.inr ?_
      simp only [List.mem_cons, List.not_mem_nil, or_false, forall_eq_or_imp, forall_eq]
      omega
  | three hThree =>
      have hBounds := isTriple_bounds hThree
      refine Or.inr ?_
      simp only [List.mem_cons, List.not_mem_nil, or_false, forall_eq_or_imp, forall_eq]
      omega
  | four hFour =>
      have hBounds := isQuad_bounds hFour
      refine Or.inr ?_
      simp only [List.mem_cons, List.not_mem_nil, or_false, forall_eq_or_imp, forall_eq]
      omega

end Form

/-- The characters of a text have the forms of characters. -/
theorem form_of_mem_pieces {s : Text} {scalar : Nat} {bytes : Text}
    (h : .character scalar bytes ∈ pieces s) : Form scalar bytes := by
  induction hLen : s.length using Nat.strongRecOn generalizing s with
  | ind n ih =>
      cases s with
      | nil => exact absurd h (by simp [pieces, piecesAfter])
      | cons a s =>
          rw [pieces_cons] at h
          rcases List.mem_cons.1 h with hFront | hLater
          · exact form_front hFront.symm
          · refine ih _ ?_ hLater rfl
            have hPos := width_front_pos a s
            rw [List.length_drop, hLen]
            simp only [List.length_cons] at hLen
            omega

/-! ## What a text begins with -/

/-- Reading finds the character that a text begins with. -/
theorem front_eq_character_iff {a : UInt8} {s : Text} {scalar : Nat} {bytes : Text} :
    front a s = .character scalar bytes ↔ Form scalar bytes ∧ bytes <+: a :: s := by
  constructor
  · intro hFront
    obtain ⟨rest, hSplit⟩ := bytes_front a s
    rw [hFront] at hSplit
    exact ⟨form_front hFront, rest, hSplit.symm⟩
  · rintro ⟨hForm, rest, hSplit⟩
    have hPieces := hForm.pieces_append rest
    rw [hSplit, pieces_cons] at hPieces
    exact (List.cons.inj hPieces).1

/-- A byte is stray when no character begins there. -/
theorem front_eq_stray_iff {a : UInt8} {s : Text} :
    front a s = .stray a ↔ ∀ scalar bytes, Form scalar bytes → ¬ bytes <+: a :: s := by
  constructor
  · intro hFront scalar bytes hForm hPrefix
    have hCharacter := front_eq_character_iff.2 ⟨hForm, hPrefix⟩
    rw [hFront] at hCharacter
    exact absurd hCharacter (by simp)
  · intro hNone
    cases hFront : front a s with
    | character scalar bytes =>
        obtain ⟨hForm, hPrefix⟩ := front_eq_character_iff.1 hFront
        exact absurd hPrefix (hNone scalar bytes hForm)
    | stray byte =>
        obtain ⟨rest, hSplit⟩ := bytes_front a s
        rw [hFront] at hSplit
        rw [(List.cons.inj hSplit).1]

/-- A byte that continues a character begins none. -/
theorem Form.not_isTail {scalar : Nat} {bytes : Text} (h : Form scalar bytes) {a : UInt8}
    {s : Text} (hPrefix : bytes <+: a :: s) : isTail a = false := by
  have hLead : a.toNat < 0x80 ∨ 0xc2 ≤ a.toNat := by
    cases h with
    | one hOne =>
        rw [(List.cons_prefix_cons.1 hPrefix).1, UInt8.lt_iff_toNat_lt] at hOne
        exact Or.inl hOne
    | two hTwo =>
        have hBounds := isPair_bounds hTwo
        rw [(List.cons_prefix_cons.1 hPrefix).1] at hBounds
        omega
    | three hThree =>
        have hBounds := isTriple_bounds hThree
        rw [(List.cons_prefix_cons.1 hPrefix).1] at hBounds
        omega
    | four hFour =>
        have hBounds := isQuad_bounds hFour
        rw [(List.cons_prefix_cons.1 hPrefix).1] at hBounds
        omega
  simp only [isTail, Bool.and_eq_false_iff, decide_eq_false_iff_not, UInt8.le_iff_toNat_le,
    UInt8.reduceToNat]
  omega

/-! ## Well-formed texts -/

/-- A well-formed text is empty, or a character and a well-formed text behind it. -/
@[elab_as_elim]
theorem isValid_induction {motive : Text → Prop} (empty : motive [])
    (character : ∀ {scalar : Nat} {bytes rest : Text}, Form scalar bytes → motive rest →
      motive (bytes ++ rest)) {s : Text} (h : isValid s = true) : motive s := by
  induction hLen : s.length using Nat.strongRecOn generalizing s with
  | ind n ih =>
      cases s with
      | nil => exact empty
      | cons a s =>
          rw [isValid, pieces_cons, List.all_cons, Bool.and_eq_true] at h
          obtain ⟨hFront, hRest⟩ := h
          cases hPiece : front a s with
          | stray byte => exact absurd hFront (by simp [hPiece, Piece.satisfies])
          | character scalar bytes =>
              obtain ⟨rest, hSplit⟩ := bytes_front a s
              have hDrop : (a :: s).drop (front a s).width = rest := by
                rw [hSplit, Piece.width, List.drop_left]
              have hPos := width_front_pos a s
              have hShort : rest.length < n := by
                rw [← hDrop, List.length_drop, hLen]
                simp only [List.length_cons] at hLen
                omega
              rw [hDrop] at hRest
              rw [hPiece] at hSplit
              rw [hSplit]
              exact character (form_front hPiece) (ih _ hShort hRest rfl)

/-- A well-formed text keeps its pieces, whatever follows. -/
theorem pieces_append {s : Text} (h : isValid s = true) (rest : Text) :
    pieces (s ++ rest) = pieces s ++ pieces rest := by
  refine isValid_induction rfl (fun hForm ih => ?_) h
  rw [List.append_assoc, hForm.pieces_append, hForm.pieces_append, ih, List.cons_append]

theorem isValid_append {s t : Text} (hs : isValid s = true) (ht : isValid t = true) :
    isValid (s ++ t) = true := by
  rw [isValid, pieces_append hs, List.all_append, Bool.and_eq_true]
  exact ⟨hs, ht⟩

theorem Form.isValid {scalar : Nat} {bytes : Text} (h : Form scalar bytes) :
    Utf8.isValid bytes = true := by
  have hPieces := h.pieces_append []
  rw [List.append_nil] at hPieces
  rw [Utf8.isValid, hPieces]
  rfl

theorem isValid_of_ascii {s : Text} (h : ∀ b ∈ s, b < 0x80) : isValid s = true := by
  induction s with
  | nil => rfl
  | cons b s ih =>
      exact isValid_append (Form.one (h b (by simp))).isValid (ih fun c hc => h c (by simp [hc]))

theorem isValid_flatMap {α : Type} {xs : List α} {f : α → Text}
    (h : ∀ x ∈ xs, isValid (f x) = true) : isValid (xs.flatMap f) = true := by
  induction xs with
  | nil => rfl
  | cons x xs ih =>
      exact isValid_append (h x (by simp)) (ih fun y hy => h y (by simp [hy]))

/-! ## Repairing -/

/-- What stands for a piece in a repaired text. -/
def shown : Piece → Text
  | .character _ bytes => bytes
  | .stray _ => replacement

theorem repair_eq (s : Text) : repair s = (pieces s).flatMap shown :=
  List.flatMap_congr fun piece _ => by cases piece <;> rfl

/-- A repaired text is well formed. -/
theorem isValid_repair (s : Text) : isValid (repair s) = true := by
  rw [repair_eq]
  refine isValid_flatMap fun piece hPiece => ?_
  cases piece with
  | character scalar bytes => exact (form_of_mem_pieces hPiece).isValid
  | stray byte => exact (by decide : isValid replacement = true)

/-- A well-formed text is as it is when repaired. -/
theorem repair_of_isValid {s : Text} (h : isValid s = true) : repair s = s := by
  rw [repair_eq]
  refine isValid_induction rfl (fun hForm ih => ?_) h
  rw [hForm.pieces_append, List.flatMap_cons, ih, shown]

end Utf8

end DottedNames
