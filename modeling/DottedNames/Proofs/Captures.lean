import DottedNames.Proofs.Attribution

/-!
# What the patterns capture

`Pattern.wordAfter` tries every place of a line from the left and takes the word
there as long as it goes. This file says what it captures without the search. A
line matches at a place when it can be written as what stands before the place,
the keyword, a gap, a word and the rest; the captured word is the longest one at
the leftmost such place. The three ways to write a line are the patterns
`class\s+(\w+)`, `def\s+(\w+)` and `^(\w+)\s*=`, over an alphabet of bytes: a
byte outside ASCII, be it part of a character or stray, is neither in a gap nor
in a word.

A gap and a word have no byte in common, so once the place is known the gap is
the longest run of gap bytes after the keyword, and each word that matches is a
beginning of the run of word bytes that comes next. That settles both the longest
word and its uniqueness.

## Main results

* `wordAfter_eq_some_iff` — the search captures the longest word at the leftmost
  place.
* `assigned_eq_some_iff` — the only word that a line can assign to.
* `captures_of_patterns` — the captures of every line, and what the names of
  every element are made of.
-/

namespace DottedNames

/-- The bytes of words. -/
def wordBytes : Text :=
  text "0123456789ABCDEFGHIJKLMNOPQRSTUVWXYZ_abcdefghijklmnopqrstuvwxyz"

/-- The bytes of gaps. -/
def gapBytes : Text := text "\t\n\x0c\r "

/-- A text of word bytes, at least one. -/
structure IsWordText (s : Text) : Prop where
  ne_nil : s ≠ []
  bytes : ∀ b ∈ s, b ∈ wordBytes

/-- No other byte is in a word. -/
theorem IsWordText.not_mem {s : Text} (h : IsWordText s) {b : UInt8} (hOther : b ∉ wordBytes) :
    b ∉ s :=
  fun hMem => hOther (h.bytes b hMem)

/-- A text of gap bytes, possibly none. -/
def IsGapText (s : Text) : Prop := ∀ b ∈ s, b ∈ gapBytes

/-! ## The two alphabets -/

theorem isWord_iff (b : UInt8) : Byte.isWord b = true ↔ b ∈ wordBytes := by
  have hBytes : wordBytes = ((List.range 256).map Nat.toUInt8).filter Byte.isWord := by
    decide +kernel
  have hByte : b ∈ (List.range 256).map Nat.toUInt8 :=
    List.mem_map.2 ⟨b.toNat, List.mem_range.2 b.toNat_lt, by simp⟩
  rw [hBytes, List.mem_filter]
  exact ⟨fun h => ⟨hByte, h⟩, fun h => h.2⟩

theorem isGap_iff (b : UInt8) : Byte.isGap b = true ↔ b ∈ gapBytes := by
  have hBytes : gapBytes =
      [Byte.tab, Byte.newline, Byte.formFeed, Byte.carriageReturn, Byte.space] := by decide
  simp [hBytes, Byte.isGap, or_assoc]

/-- No byte is both in a word and in a gap. -/
theorem not_isGap_of_isWord {b : UInt8} (h : Byte.isWord b = true) : Byte.isGap b = false := by
  have hNone : gapBytes.all (fun g => !Byte.isWord g) = true := by decide
  rw [Bool.eq_false_iff]
  intro hGap
  have hNot := List.all_eq_true.1 hNone b ((isGap_iff b).1 hGap)
  simp [h] at hNot

theorem isWordText_iff (s : Text) : IsWordText s ↔ s ≠ [] ∧ ∀ b ∈ s, Byte.isWord b = true := by
  simp only [isWord_iff]
  exact ⟨fun h => ⟨h.ne_nil, h.bytes⟩, fun h => ⟨h.1, h.2⟩⟩

theorem isGapText_iff (s : Text) : IsGapText s ↔ ∀ b ∈ s, Byte.isGap b = true := by
  simp only [isGap_iff, IsGapText]

theorem of_mem_takeWhile {p : UInt8 → Bool} {s : Text} : ∀ b ∈ s.takeWhile p, p b = true :=
  List.all_eq_true.1 List.all_takeWhile

/-- In front of a byte that ends it, a run is all that `takeWhile` takes, and
`dropWhile` leaves the rest. -/
theorem run_of_append {p : UInt8 → Bool} {run rest : Text} (hRun : ∀ b ∈ run, p b = true)
    (hRest : ∀ b ∈ rest.head?, p b = false) :
    (run ++ rest).takeWhile p = run ∧ (run ++ rest).dropWhile p = rest := by
  rw [List.takeWhile_append_of_pos hRun, List.dropWhile_append_of_pos hRun]
  cases rest with
  | nil => simp
  | cons b rest =>
      have hEnd : p b = false := hRest b (by simp)
      simp [hEnd]

namespace Pattern

/-! ## A keyword, a gap and a word -/

/-- After `before` a text goes on with a keyword, a gap and a word. -/
def Matches (keyword s before word : Text) : Prop :=
  ∃ gap after, s = before ++ keyword ++ gap ++ word ++ after ∧ gap ≠ [] ∧ IsGapText gap ∧
    IsWordText word

/-- The longest of the words that match at the leftmost place where any does. -/
def Captures (keyword s word : Text) : Prop :=
  ∃ before, Matches keyword s before word ∧
    (∀ before' word', Matches keyword s before' word' → before.length ≤ before'.length) ∧
    ∀ word', Matches keyword s before word' → word'.length ≤ word.length

/-- The run of word bytes after the gap that a text begins with. -/
def wordRun (rest : Text) : Text := (rest.dropWhile Byte.isGap).takeWhile Byte.isWord

/-- A word that matches right after the keyword begins the run there. -/
theorem prefix_wordRun {gap word : Text} (after : Text) (hGap : IsGapText gap)
    (hWord : IsWordText word) :
    (gap ++ word ++ after).takeWhile Byte.isGap = gap ∧
      word <+: wordRun (gap ++ word ++ after) := by
  have hBytes := ((isWordText_iff word).1 hWord).2
  have hEnd : ∀ b ∈ (word ++ after).head?, Byte.isGap b = false := by
    cases word with
    | nil => exact absurd rfl hWord.ne_nil
    | cons w ws => simpa using not_isGap_of_isWord (hBytes w (by simp))
  have hRun := run_of_append ((isGapText_iff gap).1 hGap) hEnd
  rw [List.append_assoc, wordRun, hRun.2, List.takeWhile_append_of_pos hBytes]
  exact ⟨hRun.1, List.prefix_append _ _⟩

theorem matches_nil_iff {keyword s word : Text} :
    Matches keyword s [] word ↔ ∃ rest, s = keyword ++ rest ∧
      rest.takeWhile Byte.isGap ≠ [] ∧ word ≠ [] ∧ word <+: wordRun rest := by
  constructor
  · rintro ⟨gap, after, rfl, hNonempty, hGap, hWord⟩
    obtain ⟨hTake, hPrefix⟩ := prefix_wordRun after hGap hWord
    refine ⟨gap ++ word ++ after, by simp, ?_, hWord.ne_nil, hPrefix⟩
    rw [hTake]
    exact hNonempty
  · rintro ⟨rest, rfl, hNonempty, hWord, run, hRun⟩
    refine ⟨rest.takeWhile Byte.isGap, run ++ (rest.dropWhile Byte.isGap).dropWhile Byte.isWord,
      ?_, hNonempty, ?_, ?_⟩
    · have hRest : rest.takeWhile Byte.isGap ++
          (wordRun rest ++ (rest.dropWhile Byte.isGap).dropWhile Byte.isWord) = rest := by
        rw [wordRun, List.takeWhile_append_dropWhile, List.takeWhile_append_dropWhile]
      rw [← hRun] at hRest
      simpa using hRest.symm
    · exact (isGapText_iff _).2 of_mem_takeWhile
    · refine (isWordText_iff word).2 ⟨hWord, fun b hb => ?_⟩
      have hMem : b ∈ wordRun rest := hRun ▸ List.mem_append_left run hb
      exact of_mem_takeWhile b hMem

theorem matches_cons_iff {keyword s before word : Text} {b c : UInt8} :
    Matches keyword (b :: s) (c :: before) word ↔ b = c ∧ Matches keyword s before word := by
  simp only [Matches, List.cons_append, List.cons.injEq]
  constructor
  · rintro ⟨gap, after, ⟨rfl, hText⟩, hRest⟩
    exact ⟨rfl, gap, after, hText, hRest⟩
  · rintro ⟨rfl, gap, after, hText, hRest⟩
    exact ⟨gap, after, ⟨rfl, hText⟩, hRest⟩

/-- What stands before the place plays no part in what matches there. -/
theorem matches_append_iff {keyword s before word : Text} :
    Matches keyword (before ++ s) before word ↔ Matches keyword s [] word := by
  induction before with
  | nil => rfl
  | cons b before ih => simp [matches_cons_iff, ih]

theorem before_of_matches {keyword s before word : Text} (h : Matches keyword s before word) :
    ∃ rest, s = before ++ rest := by
  obtain ⟨gap, after, hText, -⟩ := h
  exact ⟨keyword ++ gap ++ word ++ after, by simp [hText]⟩

/-- A text has one capture at most. -/
theorem Captures.unique {keyword s a b : Text} (ha : Captures keyword s a)
    (hb : Captures keyword s b) : a = b := by
  obtain ⟨before, hMatchA, hFirstA, hLongA⟩ := ha
  obtain ⟨before', hMatchB, hFirstB, hLongB⟩ := hb
  obtain ⟨rest, rfl⟩ := before_of_matches hMatchA
  obtain ⟨rest', hRest⟩ := before_of_matches hMatchB
  obtain rfl : before = before' :=
    (List.append_inj hRest (Nat.le_antisymm (hFirstA _ _ hMatchB) (hFirstB _ _ hMatchA))).1
  have hLength : a.length = b.length := Nat.le_antisymm (hLongB a hMatchA) (hLongA b hMatchB)
  obtain ⟨tail, rfl, -, -, hPrefixA⟩ := matches_nil_iff.1 (matches_append_iff.1 hMatchA)
  obtain ⟨tail', hTail, -, -, hPrefixB⟩ := matches_nil_iff.1 (matches_append_iff.1 hMatchB)
  obtain rfl := List.append_cancel_left hTail
  have hBegins := List.prefix_of_prefix_length_le hPrefixA hPrefixB (Nat.le_of_eq hLength)
  exact hBegins.eq_of_length hLength

/-! ## The search -/

theorem wordHere_eq_some_iff {keyword s word : Text} :
    wordHere keyword s = some word ↔
      ∃ rest, s = keyword ++ rest ∧ rest.takeWhile Byte.isGap ≠ [] ∧ word ≠ [] ∧
        word = wordRun rest := by
  unfold wordHere
  cases hRest : Text.dropPrefix? keyword s with
  | none =>
      have hOther : ∀ rest, s ≠ keyword ++ rest := fun rest hText => by
        simp [Text.dropPrefix?_eq_some_iff.2 hText] at hRest
      simp [hOther]
  | some rest =>
      obtain rfl := Text.dropPrefix?_eq_some_iff.1 hRest
      have hRun : (rest.dropWhile Byte.isGap).takeWhile Byte.isWord = wordRun rest := rfl
      simp only [hRun, Bool.or_eq_true, List.isEmpty_iff, List.append_cancel_left_eq,
        Option.ite_none_left_eq_some, Option.some.injEq, not_or]
      constructor
      · rintro ⟨⟨hGap, hWord⟩, rfl⟩
        exact ⟨rest, rfl, hGap, hWord, rfl⟩
      · rintro ⟨_, rfl, hGap, hWord, rfl⟩
        exact ⟨⟨hGap, hWord⟩, rfl⟩

theorem matches_of_wordHere {keyword s word : Text} (h : wordHere keyword s = some word) :
    Matches keyword s [] word ∧
      ∀ word', Matches keyword s [] word' → word'.length ≤ word.length := by
  obtain ⟨rest, rfl, hGap, hWord, rfl⟩ := wordHere_eq_some_iff.1 h
  refine ⟨matches_nil_iff.2 ⟨rest, rfl, hGap, hWord, List.prefix_rfl⟩, fun word' hMatch => ?_⟩
  obtain ⟨rest', hSame, -, -, hPrefix⟩ := matches_nil_iff.1 hMatch
  obtain rfl := List.append_cancel_left hSame
  exact hPrefix.length_le

theorem not_matches_of_wordHere {keyword s : Text} (h : wordHere keyword s = none) (word : Text) :
    ¬ Matches keyword s [] word := by
  intro hMatch
  obtain ⟨rest, hText, hGap, hWord, hPrefix⟩ := matches_nil_iff.1 hMatch
  have hRun : wordRun rest ≠ [] := fun hNil => hWord (List.prefix_nil.1 (hNil ▸ hPrefix))
  have hSome := wordHere_eq_some_iff.2 ⟨rest, hText, hGap, hRun, rfl⟩
  simp [h] at hSome

/-- The search goes on exactly while nothing matches, so what it finds is at the
leftmost place. -/
theorem captures_of_wordAfter {keyword s word : Text} (h : wordAfter keyword s = some word) :
    Captures keyword s word := by
  induction s with
  | nil => simp [wordAfter] at h
  | cons b s ih =>
      unfold wordAfter at h
      split at h
      · next found hFound =>
          obtain rfl := Option.some.inj h
          obtain ⟨hMatch, hLongest⟩ := matches_of_wordHere hFound
          exact ⟨[], hMatch, fun _ _ _ => Nat.zero_le _, hLongest⟩
      · next hNone =>
          obtain ⟨before, hMatch, hFirst, hLongest⟩ := ih h
          refine ⟨b :: before, matches_cons_iff.2 ⟨rfl, hMatch⟩, fun before' word' hOther => ?_,
            fun word' hOther => hLongest word' (matches_cons_iff.1 hOther).2⟩
          cases before' with
          | nil => exact absurd hOther (not_matches_of_wordHere hNone word')
          | cons c before' =>
              exact Nat.succ_le_succ (hFirst before' word' (matches_cons_iff.1 hOther).2)

/-- The search does not miss a place. -/
theorem exists_wordAfter_of_matches {keyword s before word : Text}
    (h : Matches keyword s before word) : ∃ found, wordAfter keyword s = some found := by
  induction s generalizing before with
  | nil =>
      obtain ⟨gap, after, hText, hGap, -⟩ := h
      simp only [List.nil_eq, List.append_eq_nil_iff] at hText
      exact absurd hText.1.1.2 hGap
  | cons b s ih =>
      unfold wordAfter
      cases hHere : wordHere keyword (b :: s) with
      | some found => exact ⟨found, rfl⟩
      | none =>
          cases before with
          | nil => exact absurd h (not_matches_of_wordHere hHere word)
          | cons c before => exact ih (matches_cons_iff.1 h).2

/-- The search captures the longest word at the leftmost place that matches. -/
theorem wordAfter_eq_some_iff (keyword s word : Text) :
    wordAfter keyword s = some word ↔ Captures keyword s word := by
  constructor
  · exact captures_of_wordAfter
  · intro hCaptures
    have ⟨before, hMatch, _⟩ := hCaptures
    obtain ⟨found, hFound⟩ := exists_wordAfter_of_matches hMatch
    rw [hFound, (captures_of_wordAfter hFound).unique hCaptures]

theorem exists_wordAfter_iff (keyword s : Text) :
    (∃ word, wordAfter keyword s = some word) ↔ ∃ before word, Matches keyword s before word := by
  constructor
  · rintro ⟨word, hFound⟩
    obtain ⟨before, hMatch, -⟩ := captures_of_wordAfter hFound
    exact ⟨before, word, hMatch⟩
  · rintro ⟨before, word, hMatch⟩
    exact exists_wordAfter_of_matches hMatch

/-! ## A word that is assigned to -/

/-- A text begins with a word, a gap that may be empty, and an equals sign. -/
def Assigns (s word : Text) : Prop :=
  ∃ gap after, s = word ++ gap ++ Byte.equals :: after ∧ IsWordText word ∧ IsGapText gap

/-- The equals sign ends both runs, so they are the whole word and the whole
gap. -/
theorem assigned_eq_some_iff (s word : Text) : assigned s = some word ↔ Assigns s word := by
  constructor
  · intro h
    obtain ⟨hWord, hNonempty⟩ := assigned_eq_some h
    subst hWord
    unfold assigned at h
    simp only at h
    split at h
    · exact absurd h (by simp)
    · next b after hAfter =>
        split at h
        · next hEquals =>
            simp only [Bool.and_eq_true, beq_iff_eq] at hEquals
            refine ⟨(s.dropWhile Byte.isWord).takeWhile Byte.isGap, after, ?_,
              (isWordText_iff _).2 ⟨hNonempty, of_mem_takeWhile⟩,
              (isGapText_iff _).2 of_mem_takeWhile⟩
            rw [← hEquals.1, ← hAfter, List.append_assoc, List.takeWhile_append_dropWhile,
              List.takeWhile_append_dropWhile]
        · exact absurd h (by simp)
  · rintro ⟨gap, after, rfl, hWord, hGap⟩
    obtain ⟨hNonempty, hWordBytes⟩ := (isWordText_iff word).1 hWord
    have hGapBytes := (isGapText_iff gap).1 hGap
    have hEquals : ∀ b ∈ (Byte.equals :: after).head?, Byte.isGap b = false := by
      simp only [List.head?_cons, Option.mem_def, Option.some.injEq, forall_eq']
      decide
    have hGapRun := run_of_append hGapBytes hEquals
    have hWordEnd : ∀ b ∈ (gap ++ Byte.equals :: after).head?, Byte.isWord b = false := by
      cases gap with
      | nil => simp; decide
      | cons g gap =>
          have hFirst := hGapBytes g (by simp)
          simp only [List.cons_append, List.head?_cons, Option.mem_def, Option.some.injEq,
            forall_eq']
          rw [Bool.eq_false_iff]
          intro hBoth
          rw [not_isGap_of_isWord hBoth] at hFirst
          exact absurd hFirst (by decide)
    have hWordRun := run_of_append hWordBytes hWordEnd
    simp [assigned, hWordRun, hGapRun, hNonempty]

end Pattern

/-! ## The names of an element -/

namespace Document

/-- A class is named after a class pattern of some line of the document. -/
theorem isWordText_of_className {doc : Document} {n : Nat} {name : Text}
    (h : (namesAt doc n).className = some name) : IsWordText name := by
  have hCapture : ∀ line found, Pattern.classOn line = some found → IsWordText found :=
    fun line found hFound => (isWordText_iff found).2 (Pattern.wordAfter_eq_some hFound)
  cases hLine : doc[n]? with
  | none => simp [namesAt, hLine] at h
  | some line =>
      rcases (className_namesAt hLine).1 h with hOwn | ⟨-, -, j, -, ⟨classLine, -, hClass, -⟩, -⟩
      · exact hCapture line name hOwn
      · exact hCapture classLine name hClass

theorem isWordText_of_functionName {doc : Document} {n : Nat} {name : Text}
    (h : (namesAt doc n).functionName = some name) : IsWordText name := by
  cases hLine : doc[n]? with
  | none => simp [namesAt, hLine] at h
  | some line =>
      simp only [namesAt, hLine] at h
      exact (isWordText_iff name).2 (Pattern.wordAfter_eq_some h)

theorem isWordText_of_constantName {doc : Document} {n : Nat} {name : Text}
    (h : (namesAt doc n).constantName = some name) : IsWordText name := by
  cases hLine : doc[n]? with
  | none => simp [namesAt, hLine] at h
  | some line =>
      simp only [namesAt, hLine] at h
      obtain ⟨gap, after, -, hWord, -⟩ := (Pattern.assigned_eq_some_iff line name).1 h
      exact hWord

/-- An index outside the document has no names, and any other is a line of it. -/
theorem namesAtIndex_cases (doc : Document) (index : Int64) :
    namesAtIndex doc index = {} ∨ ∃ n, namesAtIndex doc index = namesAt doc n := by
  unfold namesAtIndex
  split
  · exact Or.inl rfl
  · exact Or.inr ⟨_, rfl⟩

end Document

/-- The captures of every line of bytes. A class is captured exactly when the line
has the keyword, a gap and a word somewhere, and it is the longest word at the
leftmost such place; functions are captured likewise. A constant is captured
exactly when the line is a word, perhaps a gap, and an equals sign with anything
after it, and there is only one way to choose the word. Every name of an element
is a non-empty text of word bytes. -/
theorem captures_of_patterns :
    (∀ s : Text,
      ((∃ name, Pattern.classOn s = some name) ↔
          ∃ before name, Pattern.Matches (text "class") s before name) ∧
        (∀ name, Pattern.classOn s = some name ↔ Pattern.Captures (text "class") s name) ∧
        ((∃ name, Pattern.functionOn s = some name) ↔
          ∃ before name, Pattern.Matches (text "def") s before name) ∧
        (∀ name, Pattern.functionOn s = some name ↔ Pattern.Captures (text "def") s name) ∧
        (∀ name, Pattern.assigned s = some name ↔ Pattern.Assigns s name) ∧
        ∀ a b, Pattern.Assigns s a → Pattern.Assigns s b → a = b) ∧
      ∀ (view : View) (doc : Document) (index : Int64) (path name : Text),
        (Document.elementAt view doc index path).className = some name ∨
          (Document.elementAt view doc index path).functionName = some name ∨
          (Document.elementAt view doc index path).constantName = some name →
        IsWordText name := by
  refine ⟨fun s => ⟨Pattern.exists_wordAfter_iff _ s, Pattern.wordAfter_eq_some_iff _ s,
    Pattern.exists_wordAfter_iff _ s, Pattern.wordAfter_eq_some_iff _ s,
    Pattern.assigned_eq_some_iff s, fun a b ha hb => ?_⟩, ?_⟩
  · rw [← Pattern.assigned_eq_some_iff] at ha hb
    exact Option.some.inj (ha.symm.trans hb)
  · intro view doc index path name hName
    simp only [Document.elementAt] at hName
    rcases Document.namesAtIndex_cases doc index with hNone | ⟨n, hLine⟩
    · simp [hNone] at hName
    · rw [hLine] at hName
      rcases hName with hClass | hFunction | hConstant
      · exact Document.isWordText_of_className hClass
      · exact Document.isWordText_of_functionName hFunction
      · exact Document.isWordText_of_constantName hConstant

end DottedNames
