import DottedNames.Proofs.Attribution
import DottedNames.Proofs.Characters

/-!
# White space in front of a line

The indentation of a line is counted in bytes, over characters that may take up to
three bytes each, and the column that the tab rule looks at is an offset in bytes
too. All of this moves along when the same white space is put in front: the pieces
of whole characters do not depend on what follows them, so they are read first, and
the pieces of the line come after them as they were. A line that is blank, or that
begins with stray bytes, is no exception.

So a line falls into white space and a rest that is flush with the margin: nothing, a
character that is not white space, or a byte that begins no character, such as the
first byte of one that is cut short by the end of the line, or a lone byte with the
value of NEL. The indentation is where the line can be cut in this way, and there is
only one such place, since white space in front of a flush rest is all the indentation
that there is.

The patterns look for a keyword anywhere on a line. No byte of a white space
character is a small letter, so no keyword begins inside the white space, and a
search that starts in front of it comes out where the line began.

Hence the rule for the class of a function sees the same lines as before, and every
line of a document that is indented as a whole keeps its class and its function. Its
constant is another matter: a constant has to stand at the very start of its line.

## Main results

* `leadingBlanks_white_append`, `indent_append` — the indentation behind white space.
* `indent_eq_zero_iff` — a line without indentation, told without reading it.
* `indent_is_white_prefix` — the indentation is the one place that divides the white
  space in front from a flush rest.
* `classOn_append`, `functionOn_append` — definitions behind white space.
* `names_of_reindented` — indenting a whole document changes no class and no function.
-/

namespace DottedNames

/-- A text of whole white space characters. -/
def IsWhite (w : Text) : Prop :=
  ∃ scalars : List Nat, (∀ c ∈ scalars, isSpace c = true) ∧ w = scalars.flatMap Utf8.encode

/-- A text without white space in front: it is empty, or it begins with a character that
is not white space or with a byte that begins no character. -/
inductive IsFlush : Text → Prop
  | empty : IsFlush []
  | character {scalar : Nat} {bytes : Text} (rest : Text) (form : Utf8.Form scalar bytes)
      (dark : isSpace scalar = false) : IsFlush (bytes ++ rest)
  | stray {b : UInt8} {rest : Text}
      (alone : ∀ scalar bytes, Utf8.Form scalar bytes → ¬ bytes <+: b :: rest) :
      IsFlush (b :: rest)

/-- The white space characters, one by one. -/
def spaces : List Nat :=
  [0x09, 0x0a, 0x0b, 0x0c, 0x0d, 0x20, 0x85, 0xa0, 0x1680, 0x2000, 0x2001, 0x2002, 0x2003, 0x2004,
    0x2005, 0x2006, 0x2007, 0x2008, 0x2009, 0x200a, 0x2028, 0x2029, 0x202f, 0x205f, 0x3000]

theorem mem_spaces {c : Nat} (h : isSpace c = true) : c ∈ spaces := by
  simp only [isSpace, Bool.or_eq_true, Bool.and_eq_true, decide_eq_true_eq, beq_iff_eq] at h
  simp only [spaces, List.mem_cons, List.not_mem_nil, or_false]
  omega

/-- A white space character is read as what it is. -/
theorem Utf8.form_of_isSpace {c : Nat} (h : isSpace c = true) : Utf8.Form c (Utf8.encode c) := by
  have hRead : ∀ c ∈ spaces, Piece.character c (Utf8.encode c) ∈ Utf8.pieces (Utf8.encode c) := by
    decide
  exact Utf8.form_of_mem_pieces (hRead c (mem_spaces h))

/-- What holds of the bytes of every white space character holds of white space. -/
theorem IsWhite.bytes {p : UInt8 → Prop} (hSpaces : ∀ c ∈ spaces, ∀ b ∈ Utf8.encode c, p b)
    {w : Text} (h : IsWhite w) : ∀ b ∈ w, p b := by
  obtain ⟨scalars, hSpace, rfl⟩ := h
  intro b hb
  obtain ⟨c, hc, hb⟩ := List.mem_flatMap.1 hb
  exact hSpaces c (mem_spaces (hSpace c hc)) b hb

theorem Utf8.Form.isWhite {c : Nat} {bytes : Text} (h : Utf8.Form c bytes)
    (hSpace : isSpace c = true) : IsWhite bytes :=
  ⟨[c], by simpa using hSpace, by rw [List.flatMap_singleton, h.encode]⟩

theorem IsWhite.append {v w : Text} (hv : IsWhite v) (hw : IsWhite w) : IsWhite (v ++ w) := by
  obtain ⟨scalars, hSpace, rfl⟩ := hv
  obtain ⟨scalars', hSpace', rfl⟩ := hw
  refine ⟨scalars ++ scalars', fun c hc => ?_, List.flatMap_append.symm⟩
  exact (List.mem_append.1 hc).elim (hSpace c) (hSpace' c)

theorem IsWhite.flatMap {α : Type} {xs : List α} {f : α → Text} (h : ∀ x ∈ xs, IsWhite (f x)) :
    IsWhite (xs.flatMap f) := by
  induction xs with
  | nil => exact ⟨[], by simp, rfl⟩
  | cons x xs ih => exact (h x (by simp)).append (ih fun y hy => h y (by simp [hy]))

/-- No byte of a white space character is a small letter. -/
theorem IsWhite.not_isLower {w : Text} (h : IsWhite w) : ∀ b ∈ w, Byte.isLower b = false :=
  h.bytes (by decide +kernel)

/-- A single character, repeated. -/
theorem isWhite_replicate (c : Nat) {b : UInt8} (hSpace : isSpace c = true)
    (hByte : Utf8.encode c = [b]) (n : Nat) : IsWhite (List.replicate n b) := by
  refine ⟨List.replicate n c, fun d hd => (List.eq_of_mem_replicate hd) ▸ hSpace, ?_⟩
  induction n with
  | zero => rfl
  | succ n ih =>
      rw [List.replicate_succ, List.replicate_succ, List.flatMap_cons, ← ih, hByte]
      rfl

/-! ## Indentation -/

namespace Text

theorem leadingBlanks_white_append {w : Text} (h : IsWhite w) (s : Text) :
    leadingBlanks (w ++ s) = w ++ leadingBlanks s := by
  obtain ⟨scalars, hSpace, rfl⟩ := h
  induction scalars with
  | nil => rfl
  | cons c scalars ih =>
      have hFirst : isSpace c = true := hSpace c (by simp)
      have hBlank : (Piece.character c (Utf8.encode c)).isBlank = true := hFirst
      have hPieces := (Utf8.form_of_isSpace hFirst).pieces_append
        (scalars.flatMap Utf8.encode ++ s)
      have hRest := ih fun d hd => hSpace d (by simp [hd])
      rw [List.flatMap_cons, List.append_assoc, leadingBlanks, hPieces,
        List.takeWhile_cons_of_pos hBlank, List.flatMap_cons, ← leadingBlanks, hRest,
        Piece.bytes, List.append_assoc]

/-- White space in front of a line adds its own length to the indentation. -/
theorem indent_append {w : Text} (h : IsWhite w) (s : Text) :
    indent (w ++ s) = w.length + indent s := by
  rw [indent, leadingBlanks_white_append h, List.length_append, indent]

/-- The white space in front is made of whole characters. -/
theorem isWhite_leadingBlanks (s : Text) : IsWhite (leadingBlanks s) := by
  refine IsWhite.flatMap fun piece hPiece => ?_
  have hBlank : piece.isBlank = true := List.all_eq_true.1 List.all_takeWhile piece hPiece
  have hRead : piece ∈ Utf8.pieces s := (List.takeWhile_sublist _).subset hPiece
  cases piece with
  | stray byte => exact absurd hBlank (by simp [Piece.isBlank, Piece.satisfies])
  | character scalar bytes => exact (Utf8.form_of_mem_pieces hRead).isWhite hBlank

theorem take_indent (s : Text) : s.take (indent s) = leadingBlanks s := by
  have hTake := congrArg (List.take (indent s)) (leadingBlanks_append s)
  rw [indent, List.take_left] at hTake
  exact hTake.symm

/-- There is no indentation exactly where the first piece is not white space. -/
theorem indent_cons_eq_zero_iff (a : UInt8) (s : Text) :
    indent (a :: s) = 0 ↔ (Utf8.front a s).isBlank = false := by
  rw [indent, leadingBlanks, Utf8.pieces_cons]
  cases hBlank : (Utf8.front a s).isBlank with
  | false => simp [List.takeWhile_cons_of_neg, hBlank]
  | true =>
      have hPos : 0 < (Utf8.front a s).bytes.length := Utf8.width_front_pos a s
      rw [List.takeWhile_cons_of_pos hBlank, List.flatMap_cons, List.length_append]
      simp only [Bool.true_eq_false, iff_false]
      omega

/-- A line without indentation is flush with the margin. -/
theorem indent_eq_zero_iff (s : Text) : indent s = 0 ↔ IsFlush s := by
  constructor
  · intro hZero
    cases s with
    | nil => exact .empty
    | cons a s =>
        have hDark := (indent_cons_eq_zero_iff a s).1 hZero
        by_cases hAlone : ∀ scalar bytes, Utf8.Form scalar bytes → ¬ bytes <+: a :: s
        · exact .stray hAlone
        · simp only [not_forall, not_not] at hAlone
          obtain ⟨scalar, bytes, hForm, hPrefix⟩ := hAlone
          rw [Utf8.front_eq_character_iff.2 ⟨hForm, hPrefix⟩] at hDark
          obtain ⟨rest, hSplit⟩ := hPrefix
          exact hSplit ▸ .character rest hForm hDark
  · intro hFlush
    cases hFlush with
    | empty => rfl
    | @character scalar bytes rest hForm hDark =>
        have hStop : ¬ (Piece.character scalar bytes).isBlank = true := Bool.eq_false_iff.1 hDark
        rw [indent, leadingBlanks, hForm.pieces_append, List.takeWhile_cons_of_neg hStop]
        rfl
    | stray hNone =>
        rw [indent_cons_eq_zero_iff, Utf8.front_eq_stray_iff.2 hNone]
        rfl

theorem isFlush_drop_indent (s : Text) : IsFlush (s.drop (indent s)) := by
  have hSum := indent_append (isWhite_leadingBlanks s) (s.drop (indent s))
  rw [← take_indent, List.take_append_drop, List.length_take_of_le (indent_le_length s)] at hSum
  rw [← indent_eq_zero_iff]
  omega

/-- Only the indentation divides white space from a flush rest. -/
theorem indent_eq_of_isFlush {s : Text} {k : Nat} (hInside : k ≤ s.length)
    (hWhite : IsWhite (s.take k)) (hFlush : IsFlush (s.drop k)) : indent s = k := by
  calc indent s
      = indent (s.take k ++ s.drop k) := by rw [List.take_append_drop]
    _ = (s.take k).length + indent (s.drop k) := indent_append hWhite _
    _ = k := by
        rw [(indent_eq_zero_iff _).2 hFlush, List.length_take_of_le hInside, Nat.add_zero]

/-- A byte that continues a character is no white space at the front of a text, though
NEL and the no-break space have the values of such bytes. -/
theorem isFlush_of_isTail {b : UInt8} (hTail : Utf8.isTail b = true) (s : Text) :
    IsFlush (b :: s) := by
  refine .stray fun scalar bytes hForm hPrefix => ?_
  rw [hForm.not_isTail hPrefix] at hTail
  exact absurd hTail (by decide)

/-- The indentation of a line lies inside the line; in front of it there are whole white
space characters and nothing else, and behind it the line is flush: it ends there, or
goes on with another character or with a byte that begins none. No other place in the
line is such. White space put in front adds its length, and a lone byte that continues
a character ends the white space. -/
theorem indent_is_white_prefix (s : Text) :
    indent s ≤ s.length ∧ IsWhite (s.take (indent s)) ∧ IsFlush (s.drop (indent s)) ∧
      (∀ k, k ≤ s.length → IsWhite (s.take k) → IsFlush (s.drop k) → indent s = k) ∧
      (∀ w, IsWhite w → indent (w ++ s) = w.length + indent s) ∧
      ∀ w b, IsWhite w → Utf8.isTail b = true → indent (w ++ b :: s) = w.length := by
  refine ⟨indent_le_length s, take_indent s ▸ isWhite_leadingBlanks s, isFlush_drop_indent s,
    fun k => indent_eq_of_isFlush, fun w hWhite => indent_append hWhite s, ?_⟩
  intro w b hWhite hTail
  have hZero : indent (b :: s) = 0 := (indent_eq_zero_iff _).2 (isFlush_of_isTail hTail s)
  rw [indent_append hWhite, hZero, Nat.add_zero]

/-- A blank, a no-break space and an ideographic space, and two bytes of another
ideographic space that is cut short, all behind an em space. A lone byte with the value
of NEL or of the no-break space in between leaves the em space only. -/
theorem indent_of_cut_short_space :
    let s : Text := [0x20, 0xc2, 0xa0, 0xe3, 0x80, 0x80, 0xe3, 0x80]
    let w : Text := [0xe2, 0x80, 0x83]
    IsWhite w ∧ IsWhite (s.take 6) ∧ IsFlush (s.drop 6) ∧ indent (w ++ s) = 9 ∧
      indent (w ++ 0x85 :: s) = 3 ∧ indent (w ++ 0xa0 :: s) = 3 := by
  intro s w
  have hWhite : IsWhite w := ⟨[0x2003], by decide, by decide⟩
  have hIndent : indent s = 6 := by decide
  obtain ⟨-, hFront, hRest, -, hMoved, hLone⟩ := indent_is_white_prefix s
  rw [hIndent] at hFront hRest
  refine ⟨hWhite, hFront, hRest, ?_, hLone w 0x85 hWhite (by decide),
    hLone w 0xa0 hWhite (by decide)⟩
  rw [hMoved w hWhite, hIndent]
  rfl

end Text

/-! ## Definitions -/

namespace Pattern

/-- A search for a keyword passes over bytes that the keyword does not begin with. -/
theorem wordAfter_append {k : UInt8} {front : Text} (h : k ∉ front) (keyword s : Text) :
    wordAfter (k :: keyword) (front ++ s) = wordAfter (k :: keyword) s := by
  induction front with
  | nil => rfl
  | cons b front ih =>
      have hFirst : k ≠ b := fun hEq => h (by simp [hEq])
      have hHere : wordHere (k :: keyword) (b :: (front ++ s)) = none := by
        simp [wordHere, Text.dropPrefix?, hFirst]
      rw [List.cons_append, wordAfter, hHere]
      exact ih fun hMem => h (List.mem_cons_of_mem b hMem)

/-- White space holds no letter that a keyword begins with. -/
theorem wordAfter_white_append {w : Text} (h : IsWhite w) {k : UInt8}
    (hLetter : Byte.isLower k = true) (keyword s : Text) :
    wordAfter (k :: keyword) (w ++ s) = wordAfter (k :: keyword) s := by
  refine wordAfter_append (fun hMem => ?_) keyword s
  rw [h.not_isLower k hMem] at hLetter
  exact absurd hLetter (by decide)

theorem classOn_append {w : Text} (h : IsWhite w) (s : Text) : classOn (w ++ s) = classOn s := by
  have hKeyword : text "class" = 0x63 :: text "lass" := by decide
  rw [classOn, classOn, hKeyword, wordAfter_white_append h (by decide)]

theorem functionOn_append {w : Text} (h : IsWhite w) (s : Text) :
    functionOn (w ++ s) = functionOn s := by
  have hKeyword : text "def" = 0x64 :: text "ef" := by decide
  rw [functionOn, functionOn, hKeyword, wordAfter_white_append h (by decide)]

end Pattern

/-! ## Documents -/

/-- Two lines behind the same white space are as far apart as before, and the column
of the tab rule has moved along. -/
theorem isOneLevelBelow_append {w : Text} (h : IsWhite w) (functionLine classLine : Text) :
    isOneLevelBelow (w ++ functionLine) (w ++ classLine) =
      isOneLevelBelow functionLine classLine := by
  have hColumn : (w ++ functionLine)[w.length + Text.indent classLine]? =
      functionLine[Text.indent classLine]? := by
    rw [List.getElem?_append_right (Nat.le_add_right _ _), Nat.add_sub_cancel_left]
  rw [Bool.eq_iff_iff, isOneLevelBelow_iff, isOneLevelBelow_iff]
  simp only [IsDeeperByOne, Text.indent_append h, hColumn, Nat.add_assoc, Nat.add_left_cancel_iff]

theorem owningClass?_append {w : Text} (h : IsWhite w) (functionLine classLine : Text) :
    owningClass? (w ++ functionLine) (w ++ classLine) = owningClass? functionLine classLine := by
  simp only [owningClass?, Pattern.classOn_append h, isOneLevelBelow_append h]

namespace Document

/-- The search upwards in a document whose lines have all been changed. -/
theorem enclosingClass_map (change : Text → Text) (doc : Document) (n : Nat) (line : Text) :
    enclosingClass (doc.map change) n line =
      (doc.take n).reverse.findSome? fun above => owningClass? line (change above) := by
  rw [enclosingClass, ← List.map_take, ← List.map_reverse, List.findSome?_map]
  rfl

theorem enclosingClass_append {w : Text} (h : IsWhite w) (doc : Document) (n : Nat)
    (line : Text) :
    enclosingClass (doc.map (w ++ ·)) n (w ++ line) = enclosingClass doc n line := by
  simp only [enclosingClass_map, owningClass?_append h]
  rfl

theorem namesAt_reindented {w : Text} (h : IsWhite w) (doc : Document) (n : Nat) :
    (namesAt (doc.map (w ++ ·)) n).className = (namesAt doc n).className ∧
      (namesAt (doc.map (w ++ ·)) n).functionName = (namesAt doc n).functionName := by
  cases hLine : doc[n]? with
  | none => simp [namesAt, hLine]
  | some line =>
      simp only [namesAt, List.getElem?_map, hLine, Option.map_some, Pattern.classOn_append h,
        Pattern.functionOn_append h, enclosingClass_append h, and_self]

/-- Putting the same white space in front of every line of a document, of whatever
characters and of whatever length, leaves the class and the function of every line as
they were. -/
theorem names_of_reindented {w : Text} (h : IsWhite w) (view : View) (doc : Document)
    (index : Int64) (path : Text) :
    (elementAt view (doc.map (w ++ ·)) index path).className =
        (elementAt view doc index path).className ∧
      (elementAt view (doc.map (w ++ ·)) index path).functionName =
        (elementAt view doc index path).functionName := by
  simp only [elementAt, namesAtIndex]
  split
  · exact ⟨rfl, rfl⟩
  · exact namesAt_reindented h doc index.toInt.toNat

/-- An ideographic space of three bytes and a tab, in front of a class, a blank line
and a method one tab deeper. -/
theorem names_of_wide_indent :
    let w : Text := [0xe3, 0x80, 0x80, 0x09]
    let doc : Document := [text "class A:", [], text "\tdef f():"]
    IsWhite w ∧
      (elementAt {} (doc.map (w ++ ·)) 2 (text "/w/a.py")).className = some (text "A") ∧
        (elementAt {} (doc.map (w ++ ·)) 2 (text "/w/a.py")).functionName = some (text "f") := by
  intro w doc
  have hWhite : IsWhite w := ⟨[0x3000, 0x09], by decide, by decide⟩
  have hSame := names_of_reindented hWhite {} doc 2 (text "/w/a.py")
  refine ⟨hWhite, hSame.1.trans ?_, hSame.2.trans ?_⟩
  · decide +kernel
  · decide +kernel

end Document

end DottedNames
