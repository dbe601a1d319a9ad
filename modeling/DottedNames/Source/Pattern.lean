import DottedNames.Text.Basic

/-!
# Definitions on a line

Three shapes are recognised on a line of source, by their bytes alone:

* a class, `class` and a gap and a word, anywhere on the line;
* a function, `def` and a gap and a word, anywhere on the line;
* a constant, a word at the very start of the line that an equals sign
  follows, with or without a gap between them.

A gap is made of `Byte.isGap` bytes and a word of `Byte.isWord` bytes. Of
several places where a keyword matches the leftmost counts, and the word is
taken as long as it goes. The keyword may end a longer word, as in `subclass`.

## Main results

* `wordAfter_eq_some` — a word that is found is not empty and holds word bytes
  only.
* `assigned_eq_some` — a constant is all the word bytes the line begins with.
-/

namespace DottedNames

namespace Pattern

/-- The word that follows a keyword and a gap at the start of a text. -/
def wordHere (keyword s : Text) : Option Text :=
  match Text.dropPrefix? keyword s with
  | none => none
  | some rest =>
    let word := (rest.dropWhile Byte.isGap).takeWhile Byte.isWord
    if (rest.takeWhile Byte.isGap).isEmpty || word.isEmpty then none else some word

/-- The word that follows the leftmost keyword with a gap and a word after it. -/
def wordAfter (keyword : Text) : Text → Option Text
  | [] => none
  | b :: s =>
    match wordHere keyword (b :: s) with
    | some word => some word
    | none => wordAfter keyword s

/-- The class defined on a line. -/
def classOn (line : Text) : Option Text := wordAfter (text "class") line

/-- The function defined on a line. -/
def functionOn (line : Text) : Option Text := wordAfter (text "def") line

/-- The word at the start of a line that is assigned to there. -/
def assigned (line : Text) : Option Text :=
  let word := line.takeWhile Byte.isWord
  match (line.dropWhile Byte.isWord).dropWhile Byte.isGap with
  | [] => none
  | b :: _ => if b == Byte.equals && !word.isEmpty then some word else none

/-! ## What is found is a word -/

theorem wordHere_eq_some {keyword s word : Text} (h : wordHere keyword s = some word) :
    word ≠ [] ∧ ∀ b ∈ word, Byte.isWord b := by
  unfold wordHere at h
  split at h
  · exact absurd h (by simp)
  · next rest _ =>
      simp only at h
      split at h
      · exact absurd h (by simp)
      · next hFull =>
          obtain rfl := Option.some.inj h
          refine ⟨fun hNil => hFull (by simp [hNil]), fun b hb => ?_⟩
          have hTake : ∀ l : List UInt8, ∀ b ∈ l.takeWhile Byte.isWord, Byte.isWord b :=
            fun l b hb => List.all_eq_true.1 (List.all_takeWhile) b hb
          exact hTake _ b hb

theorem wordAfter_eq_some {keyword s word : Text} (h : wordAfter keyword s = some word) :
    word ≠ [] ∧ ∀ b ∈ word, Byte.isWord b := by
  induction s with
  | nil => exact absurd h (by simp [wordAfter])
  | cons b s ih =>
      unfold wordAfter at h
      split at h
      · next found hFound => exact wordHere_eq_some (Option.some.inj h ▸ hFound)
      · exact ih h

theorem assigned_eq_some {line word : Text} (h : assigned line = some word) :
    word = line.takeWhile Byte.isWord ∧ word ≠ [] := by
  unfold assigned at h
  simp only at h
  split at h
  · exact absurd h (by simp)
  · split at h
    · next hFull =>
        obtain rfl := Option.some.inj h
        simp only [Bool.and_eq_true] at hFull
        exact ⟨rfl, fun hNil => by simp [hNil] at hFull⟩
    · exact absurd h (by simp)

end Pattern

end DottedNames
