import DottedNames.Proofs.Captures
import DottedNames.Proofs.Indentation

/-!
# Lines that assign to a constant

The patterns for classes, functions and constants are tried on a line one by one, and
nothing keeps them apart but their shapes. A line that assigns to a constant begins with
a word, perhaps a gap, and an equals sign; `myclass = x` has a keyword inside that word.
This file says that no definition begins before the sign nevertheless.

The idea is an order on bytes. Up to the equals sign word bytes come first and gap bytes
after them, so behind a gap byte there is no word byte any more. A match of a keyword is
a word, a gap and a word again, and so it does not fit in. It cannot reach across the
sign either, as a match holds no equals sign.

A constant stands at the very start of its line, where no class above is shallower. So an
element with a constant has no names but those of its own line.

## Main results

* `lt_of_matches` — a match on a line that assigns begins behind the equals sign.
* `assigned_eq_none_of_definesAt` — a line that defines something first has no constant.
* `definitions_follow_the_equals_sign` — both, for lines and for elements.
-/

namespace DottedNames

/-! ## White space -/

theorem IsWhite.equals_not_mem {w : Text} (h : IsWhite w) : Byte.equals ∉ w := by
  intro hMem
  have hOther : ∀ b ∈ w, b ≠ Byte.equals := h.bytes (by decide +kernel)
  exact hOther Byte.equals hMem rfl

/-- A word at the start of a line leaves no room for indentation. -/
theorem indent_word_append {word : Text} (h : IsWordText word) (s : Text) :
    Text.indent (word ++ s) = 0 := by
  have hAscii : ∀ b ∈ wordBytes, b < 0x80 ∧ isSpace b.toNat = false := by
    decide +kernel
  cases word with
  | nil => exact absurd rfl h.ne_nil
  | cons b word =>
      obtain ⟨hLow, hNotSpace⟩ := hAscii b (h.bytes b (by simp))
      have hFlush : IsFlush ([b] ++ (word ++ s)) := .character (word ++ s) (.one hLow) hNotSpace
      exact (Text.indent_eq_zero_iff _).2 hFlush

namespace Pattern

/-- The words that a definition begins with. -/
def keywords : List Text := [text "class", text "def"]

/-- The pattern of a class or of a function matches at an offset. -/
def DefinesAt (s : Text) (offset : Nat) : Prop :=
  ∃ keyword ∈ keywords, ∃ before name, Matches keyword s before name ∧ before.length = offset

theorem isWordText_of_mem_keywords {keyword : Text} (h : keyword ∈ keywords) :
    IsWordText keyword := by
  rw [isWordText_iff]
  revert keyword
  decide +kernel

/-- A text begins with a word, a gap that may be empty, and an equals sign, which stands
at an offset. -/
def AssignsAt (s word : Text) (offset : Nat) : Prop :=
  ∃ gap after, s = word ++ gap ++ Byte.equals :: after ∧ IsWordText word ∧ IsGapText gap ∧
    (word ++ gap).length = offset

theorem assigned_iff_assignsAt {s word : Text} :
    assigned s = some word ↔ ∃ offset, AssignsAt s word offset := by
  rw [assigned_eq_some_iff]
  constructor
  · rintro ⟨gap, after, hText, hWord, hGap⟩
    exact ⟨_, gap, after, hText, hWord, hGap, rfl⟩
  · rintro ⟨_, gap, after, hText, hWord, hGap, -⟩
    exact ⟨gap, after, hText, hWord, hGap⟩

/-! ## Word bytes first -/

theorem equals_not_mem_word {word : Text} (h : IsWordText word) : Byte.equals ∉ word :=
  h.not_mem (by decide)

theorem equals_not_mem_gap {gap : Text} (h : IsGapText gap) : Byte.equals ∉ gap := by
  intro hMem
  exact absurd (h Byte.equals hMem) (by decide)

/-- In a word and a gap after it, what stands before a word byte is a word byte. -/
theorem pairwise_word_gap {word gap : Text} (hWord : IsWordText word) (hGap : IsGapText gap) :
    (word ++ gap).Pairwise fun a b => Byte.isWord b = true → Byte.isWord a = true := by
  have hWordBytes := ((isWordText_iff word).1 hWord).2
  have hNoWord : ∀ b ∈ gap, ¬ Byte.isWord b = true := by
    intro b hb hBoth
    have hGapByte := (isGapText_iff gap).1 hGap b hb
    rw [not_isGap_of_isWord hBoth] at hGapByte
    exact absurd hGapByte (by decide)
  rw [List.pairwise_append]
  refine ⟨?_, ?_, ?_⟩
  · exact List.pairwise_of_forall_mem_list fun a ha _ _ _ => hWordBytes a ha
  · exact List.pairwise_of_forall_mem_list fun _ _ b hb hBoth => absurd hBoth (hNoWord b hb)
  · exact fun a ha _ _ _ => hWordBytes a ha

/-- A gap and a word after it are nowhere inside a word and a gap. -/
theorem not_infix_word_gap {word gap innerGap innerWord : Text} (hWord : IsWordText word)
    (hGap : IsGapText gap) (hInnerGap : IsGapText innerGap) (hNonempty : innerGap ≠ [])
    (hInnerWord : IsWordText innerWord) : ¬ innerGap ++ innerWord <:+: word ++ gap := by
  intro hInfix
  have hOrder := (pairwise_word_gap hWord hGap).sublist hInfix.sublist
  obtain ⟨g, hg⟩ := List.exists_mem_of_ne_nil innerGap hNonempty
  obtain ⟨w, hw⟩ := List.exists_mem_of_ne_nil innerWord hInnerWord.ne_nil
  have hGapByte := (isGapText_iff innerGap).1 hInnerGap g hg
  have hWordByte := ((isWordText_iff innerWord).1 hInnerWord).2 w hw
  have hBoth := (List.pairwise_append.1 hOrder).2.2 g hg w hw hWordByte
  rw [not_isGap_of_isWord hBoth] at hGapByte
  exact absurd hGapByte (by decide)

/-! ## Matches and the equals sign -/

variable {keyword s word before name : Text} {offset start : Nat}

/-- The sign of an assignment is the first equals sign of the text. -/
theorem AssignsAt.offset_eq (h : AssignsAt s word offset) : offset = s.idxOf Byte.equals := by
  obtain ⟨gap, after, rfl, hWord, hGap, rfl⟩ := h
  have hFront : Byte.equals ∉ word ++ gap := by
    rw [List.mem_append, not_or]
    exact ⟨equals_not_mem_word hWord, equals_not_mem_gap hGap⟩
  rw [List.idxOf_append_of_notMem hFront, List.idxOf_cons_self, Nat.add_zero]

/-- Whatever matches a word, a gap and a word begins behind the equals sign. -/
theorem lt_of_matches (hKeyword : IsWordText keyword) (h : AssignsAt s word offset)
    (hMatch : Matches keyword s before name) : offset < before.length := by
  obtain ⟨gap, rest, rfl, hWord, hGap, rfl⟩ := h
  obtain ⟨innerGap, after, hText, hNonempty, hInnerGap, hName⟩ := hMatch
  have hNoSign : Byte.equals ∉ keyword ++ innerGap ++ name := by
    simp only [List.mem_append, not_or]
    exact ⟨⟨equals_not_mem_word hKeyword, equals_not_mem_gap hInnerGap⟩,
      equals_not_mem_word hName⟩
  have hSame : word ++ gap ++ Byte.equals :: rest =
      before ++ (keyword ++ innerGap ++ name ++ after) := by
    simpa [List.append_assoc] using hText
  -- The match begins behind what the line assigns to, or inside it.
  obtain ⟨front, hBefore, hSign⟩ | ⟨inside, hFront, hMatched⟩ :=
    List.append_eq_append_iff.1 hSame
  · cases front with
    | nil =>
        -- It would begin with the sign itself.
        obtain ⟨b, bs, rfl⟩ := List.exists_cons_of_ne_nil hKeyword.ne_nil
        simp only [List.nil_append, List.cons_append, List.cons.injEq] at hSign
        exact absurd (by simp [hSign.1]) hNoSign
    | cons b front =>
        simp only [hBefore, List.length_append, List.length_cons]
        omega
  · exfalso
    have hMatchPrefix : keyword ++ innerGap ++ name <+: inside := by
      obtain ⟨more, hInside, -⟩ | ⟨beyond, hBeyond, hRest⟩ := List.append_eq_append_iff.1 hMatched
      · exact ⟨more, hInside.symm⟩
      · cases beyond with
        | nil => exact ⟨[], by simpa using hBeyond⟩
        | cons b beyond =>
            -- It would hold the sign.
            obtain rfl : Byte.equals = b := (List.cons.inj hRest).1
            exact absurd (by simp [hBeyond]) hNoSign
    have hEnd : innerGap ++ name <:+: inside := by
      rw [List.append_assoc] at hMatchPrefix
      exact (List.suffix_append keyword _).isInfix.trans hMatchPrefix.isInfix
    apply not_infix_word_gap hWord hGap hInnerGap hNonempty hName
    rw [hFront]
    exact hEnd.trans (List.suffix_append before inside).isInfix

/-- Definitions begin behind the equals sign. -/
theorem AssignsAt.lt_of_definesAt (h : AssignsAt s word offset) (hDefines : DefinesAt s start) :
    offset < start := by
  obtain ⟨keyword, hKeyword, before, name, hMatch, rfl⟩ := hDefines
  exact lt_of_matches (isWordText_of_mem_keywords hKeyword) h hMatch

/-- A line on which a definition begins before the first equals sign assigns to nothing. -/
theorem assigned_eq_none_of_definesAt (hDefines : DefinesAt s start)
    (hFirst : start < s.idxOf Byte.equals) : assigned s = none := by
  rw [Option.eq_none_iff_forall_ne_some]
  intro word hAssigned
  obtain ⟨offset, hAssigns⟩ := assigned_iff_assignsAt.1 hAssigned
  have hBehind := hAssigns.lt_of_definesAt hDefines
  rw [hAssigns.offset_eq] at hBehind
  omega

theorem assigned_eq_none_of_not_mem (h : Byte.equals ∉ s) : assigned s = none := by
  rw [Option.eq_none_iff_forall_ne_some]
  intro word hAssigned
  obtain ⟨_, gap, after, rfl, -⟩ := assigned_iff_assignsAt.1 hAssigned
  exact h (by simp)

/-- A definition that only white space stands in front of begins before every equals
sign. -/
theorem length_lt_idxOf_of_white {blank rest : Text} (hBlank : IsWhite blank)
    (hDefines : DefinesAt (blank ++ rest) blank.length) :
    blank.length < (blank ++ rest).idxOf Byte.equals := by
  obtain ⟨keyword, hKeyword, before, name, ⟨gap, after, hText, -⟩, hStart⟩ := hDefines
  have hWord := isWordText_of_mem_keywords hKeyword
  obtain ⟨b, bs, rfl⟩ := List.exists_cons_of_ne_nil hWord.ne_nil
  simp only [List.append_assoc, List.cons_append] at hText
  obtain ⟨rfl, rfl⟩ := List.append_inj hText hStart.symm
  have hOther : (b == Byte.equals) = false := by
    rw [beq_eq_false_iff_ne]
    rintro rfl
    exact equals_not_mem_word hWord (by simp)
  rw [List.idxOf_append_of_notMem hBlank.equals_not_mem]
  simp only [List.idxOf_cons, hOther, cond_false]
  omega

end Pattern

/-! ## Elements -/

namespace Document

variable {view : View} {doc : Document} {index : Int64} {path line : Text} {n : Nat}

theorem constantName_elementAt (hIndex : index.toInt = n) (hLine : doc[n]? = some line) :
    (elementAt view doc index path).constantName = Pattern.assigned line := by
  simp only [elementAt, namesAtIndex_of_toInt hIndex, namesAt, hLine]

theorem functionName_elementAt (hIndex : index.toInt = n) (hLine : doc[n]? = some line) :
    (elementAt view doc index path).functionName = Pattern.functionOn line := by
  simp only [elementAt, namesAtIndex_of_toInt hIndex, namesAt, hLine]

/-- No class above is shallower than a line that assigns to a constant, so its class can
only be its own. -/
theorem className_of_assigned {word : Text} (hIndex : index.toInt = n)
    (hLine : doc[n]? = some line) (hAssigned : Pattern.assigned line = some word) :
    (elementAt view doc index path).className = Pattern.classOn line := by
  have hIndent : Text.indent line = 0 := by
    obtain ⟨_, gap, after, rfl, hWord, -⟩ := Pattern.assigned_iff_assignsAt.1 hAssigned
    rw [List.append_assoc]
    exact indent_word_append hWord _
  have hNoneAbove : ∀ name, ¬ IsNearestClass doc n line name := by
    rintro name ⟨j, -, ⟨classLine, -, -, hDeeper⟩, -⟩
    unfold IsDeeperByOne at hDeeper
    omega
  apply Option.ext
  intro name
  rw [elementAt, namesAtIndex_of_toInt hIndex, className_namesAt hLine]
  constructor
  · rintro (hOwn | ⟨-, -, hNearest⟩)
    · exact hOwn
    · exact absurd hNearest (hNoneAbove name)
  · exact Or.inl

end Document

/-- Constants and definitions on one line. Where a line assigns to a word, every match
of a class or a function begins behind the equals sign. So a line with a match in front
of its first equals sign, or with no equals sign at all, assigns to nothing. An element
with a constant has the class and the function of its own line, if any, and a line that
a definition begins, after white space or at once, gives no constant. -/
theorem definitions_follow_the_equals_sign :
    (∀ s : Text,
      (∀ word, Pattern.assigned s = some word ↔ ∃ offset, Pattern.AssignsAt s word offset) ∧
        (∀ word offset start, Pattern.AssignsAt s word offset → Pattern.DefinesAt s start →
          offset < start) ∧
        (∀ start, Pattern.DefinesAt s start → start < s.idxOf Byte.equals →
          Pattern.assigned s = none) ∧
        (Byte.equals ∉ s → Pattern.assigned s = none)) ∧
      ∀ (view : View) (doc : Document) (index : Int64) (path : Text) (n : Nat) (line : Text),
        index.toInt = n → doc[n]? = some line →
          (∀ word, (Document.elementAt view doc index path).constantName = some word →
            (Document.elementAt view doc index path).className = Pattern.classOn line ∧
              (Document.elementAt view doc index path).functionName = Pattern.functionOn line ∧
              ∃ offset, Pattern.AssignsAt line word offset ∧
                ∀ start, Pattern.DefinesAt line start → offset < start) ∧
            ∀ blank rest, line = blank ++ rest → IsWhite blank →
              Pattern.DefinesAt line blank.length →
                (Document.elementAt view doc index path).constantName = none := by
  refine ⟨?_, ?_⟩
  · intro s
    refine ⟨?_, ?_, ?_, Pattern.assigned_eq_none_of_not_mem⟩
    · exact fun word => Pattern.assigned_iff_assignsAt
    · exact fun word offset start hAssigns hDefines => hAssigns.lt_of_definesAt hDefines
    · exact fun start hDefines hFirst => Pattern.assigned_eq_none_of_definesAt hDefines hFirst
  · intro view doc index path n line hIndex hLine
    rw [Document.constantName_elementAt hIndex hLine]
    refine ⟨?_, ?_⟩
    · intro word hAssigned
      obtain ⟨offset, hAssigns⟩ := Pattern.assigned_iff_assignsAt.1 hAssigned
      refine ⟨Document.className_of_assigned hIndex hLine hAssigned,
        Document.functionName_elementAt hIndex hLine, offset, hAssigns, ?_⟩
      exact fun start hDefines => hAssigns.lt_of_definesAt hDefines
    · intro blank rest hSplit hBlank hDefines
      subst hSplit
      exact Pattern.assigned_eq_none_of_definesAt hDefines
        (Pattern.length_lt_idxOf_of_white hBlank hDefines)

/-- A constant whose word ends in a keyword, with a class behind the equals sign; and a
function behind white space, with an equals sign among its parameters. -/
theorem constant_with_class_behind :
    let document := [text "xdef = class A", text "\tdef f(x = 1):"]
    (Document.elementAt {} document 0 (text "/w/a.py")).constantName = some (text "xdef") ∧
      (Document.elementAt {} document 0 (text "/w/a.py")).className = some (text "A") ∧
      (∀ start, Pattern.DefinesAt (text "xdef = class A") start → 5 < start) ∧
      (Document.elementAt {} document 1 (text "/w/a.py")).constantName = none := by
  intro document
  have hConstant : (Document.elementAt {} document 0 (text "/w/a.py")).constantName =
      some (text "xdef") := by decide +kernel
  have hElements := definitions_follow_the_equals_sign.2 {} document
  obtain ⟨hClass, -, offset, hAssigns, hBehind⟩ :=
    (hElements 0 (text "/w/a.py") 0 _ rfl rfl).1 _ hConstant
  have hOffset : offset = 5 := hAssigns.offset_eq.trans (by decide +kernel)
  have hFunction : Pattern.DefinesAt (text "\tdef f(x = 1):") [Byte.tab].length := by
    refine ⟨text "def", by decide, [Byte.tab], text "f", ?_, rfl⟩
    exact ⟨text " ", text "(x = 1):", by decide, by decide,
      (isGapText_iff _).2 (by decide +kernel), (isWordText_iff _).2 (by decide +kernel)⟩
  refine ⟨hConstant, hClass.trans (by decide +kernel), hOffset ▸ hBehind, ?_⟩
  exact (hElements 1 (text "/w/a.py") 1 _ rfl rfl).2 [Byte.tab] (text "def f(x = 1):")
    (by decide) ⟨[0x09], by decide, by decide⟩ hFunction

end DottedNames
