import DottedNames.Proofs.Indentation

/-!
# Four spaces or one tab

A level of indentation is four spaces or one tab. When every line of a document is
indented by a multiple of four spaces, its levels can be written with tabs instead,
and a rule that goes by levels would not see a difference. The rule for the class of
a function goes by columns: it accepts a class line four columns shallower whatever
these columns are, and one column shallower when that column is a tab.

With spaces both parts come to the same thing, one level. With tabs the first part
accepts a class that is four levels shallower. So a function under four tabs is given
to a class without indentation when no nearer class is one level shallower, and this
is the only way in which the two styles differ. The lines that are passed over, and
how deep the document is nested apart from that, play no part.

## Main results

* `isDeeperByOne_iff_of_spaces`, `isDeeperByOne_iff_of_tabs` — what the rule accepts in
  either style.
* `className_ne_iff` — which line has another class when it is indented by tabs.
* `tabs_keep_classes_iff` — when the two styles of a document agree at a line.
-/

namespace DottedNames

/-- The leading white space of a line is some number of times four spaces. -/
def IsSpaceIndented (line : Text) : Prop :=
  ∃ k, Text.leadingBlanks line = List.replicate (4 * k) Byte.space

/-- The levels of a line that is indented by four spaces for each. -/
def level (line : Text) : Nat := Text.indent line / 4

/-- The line with a tab in place of the four spaces of each level. -/
def withTabs (line : Text) : Text :=
  List.replicate (level line) Byte.tab ++ line.drop (4 * level line)

/-! ## One line in both styles -/

theorem isWhite_tabs (k : Nat) : IsWhite (List.replicate k Byte.tab) :=
  isWhite_replicate 0x09 (by decide) (by decide) k

theorem isWhite_spaces (k : Nat) : IsWhite (List.replicate k Byte.space) :=
  isWhite_replicate 0x20 (by decide) (by decide) k

theorem level_of_leadingBlanks {line : Text} {k : Nat}
    (h : Text.leadingBlanks line = List.replicate (4 * k) Byte.space) : level line = k := by
  rw [level, Text.indent, h, List.length_replicate, Nat.mul_div_cancel_left k (by decide)]

theorem isSpaceIndented_iff (line : Text) :
    IsSpaceIndented line ↔
      Text.leadingBlanks line = List.replicate (4 * level line) Byte.space := by
  constructor
  · rintro ⟨k, hBlanks⟩
    rw [level_of_leadingBlanks hBlanks, hBlanks]
  · exact fun hBlanks => ⟨level line, hBlanks⟩

instance (line : Text) : Decidable (IsSpaceIndented line) :=
  decidable_of_iff _ (isSpaceIndented_iff line).symm

namespace IsSpaceIndented

variable {line : Text}

theorem indent_eq (h : IsSpaceIndented line) : Text.indent line = 4 * level line := by
  rw [Text.indent, (isSpaceIndented_iff line).1 h, List.length_replicate]

/-- The line in both styles, in front of the same rest. -/
theorem exists_rest (h : IsSpaceIndented line) :
    ∃ rest, Text.indent rest = 0 ∧ line = List.replicate (4 * level line) Byte.space ++ rest ∧
      withTabs line = List.replicate (level line) Byte.tab ++ rest := by
  have hFront : line.take (4 * level line) = List.replicate (4 * level line) Byte.space := by
    rw [← h.indent_eq, Text.take_indent, (isSpaceIndented_iff line).1 h, h.indent_eq]
  refine ⟨line.drop (4 * level line), ?_, ?_, rfl⟩
  · rw [← h.indent_eq]
    exact (Text.indent_eq_zero_iff _).2 (Text.isFlush_drop_indent line)
  · rw [← hFront, List.take_append_drop]

theorem indent_withTabs (h : IsSpaceIndented line) : Text.indent (withTabs line) = level line := by
  obtain ⟨rest, hRest, -, hTabs⟩ := h.exists_rest
  rw [hTabs, Text.indent_append (isWhite_tabs _), List.length_replicate, hRest, Nat.add_zero]

/-- What does not depend on white space in front is the same in both styles. -/
theorem read_withTabs {α : Type} {read : Text → α} (h : IsSpaceIndented line)
    (hRead : ∀ w, IsWhite w → ∀ s, read (w ++ s) = read s) :
    read (withTabs line) = read line := by
  obtain ⟨rest, -, hLine, hTabs⟩ := h.exists_rest
  calc read (withTabs line)
      = read rest := by rw [hTabs, hRead _ (isWhite_tabs _)]
    _ = read (List.replicate (4 * level line) Byte.space ++ rest) :=
        (hRead _ (isWhite_spaces _) rest).symm
    _ = read line := by rw [← hLine]

theorem classOn_withTabs (h : IsSpaceIndented line) :
    Pattern.classOn (withTabs line) = Pattern.classOn line :=
  h.read_withTabs fun _ hWhite => Pattern.classOn_append hWhite

theorem functionOn_withTabs (h : IsSpaceIndented line) :
    Pattern.functionOn (withTabs line) = Pattern.functionOn line :=
  h.read_withTabs fun _ hWhite => Pattern.functionOn_append hWhite

/-- Every column of the indentation is a tab. -/
theorem column_withTabs (h : IsSpaceIndented line) {i : Nat} (hi : i < level line) :
    (withTabs line)[i]? = some Byte.tab := by
  obtain ⟨rest, -, -, hTabs⟩ := h.exists_rest
  rw [hTabs, List.getElem?_append_left (by rwa [List.length_replicate]),
    List.getElem?_replicate_of_lt hi]

end IsSpaceIndented

/-! ## What the rule accepts -/

/-- With spaces the tab part of the rule never applies: a difference of one column is
none of four. -/
theorem isDeeperByOne_iff_of_spaces {functionLine classLine : Text}
    (hFunction : IsSpaceIndented functionLine) (hClass : IsSpaceIndented classLine) :
    IsDeeperByOne functionLine classLine ↔ level functionLine = level classLine + 1 := by
  rw [IsDeeperByOne, hFunction.indent_eq, hClass.indent_eq]
  constructor
  · rintro (hFour | ⟨hOne, -⟩)
    · omega
    · omega
  · intro hLevel
    exact Or.inl (by omega)

/-- With tabs both parts of the rule apply, and four columns are four levels. -/
theorem isDeeperByOne_iff_of_tabs {functionLine classLine : Text}
    (hFunction : IsSpaceIndented functionLine) (hClass : IsSpaceIndented classLine) :
    IsDeeperByOne (withTabs functionLine) (withTabs classLine) ↔
      level functionLine = level classLine + 1 ∨ level functionLine = level classLine + 4 := by
  rw [IsDeeperByOne, hFunction.indent_withTabs, hClass.indent_withTabs]
  constructor
  · rintro (hFour | ⟨hOne, -⟩)
    · exact Or.inr hFour
    · exact Or.inl hOne
  · rintro (hOne | hFour)
    · exact Or.inr ⟨hOne, hFunction.column_withTabs (by omega)⟩
    · exact Or.inl hFour

namespace Document

/-- Line `j` names a class and is shallower than a line, by one of some numbers of
levels. -/
def IsClassAbove (doc : Document) (line : Text) (levels : List Nat) (j : Nat) (name : Text) :
    Prop :=
  ∃ classLine, doc[j]? = some classLine ∧ Pattern.classOn classLine = some name ∧
    ∃ d ∈ levels, level line = level classLine + d

/-- A test holds for a line above line `n` with a name, and for none between the two. -/
def IsNearest (test : Nat → Text → Prop) (n : Nat) (name : Text) : Prop :=
  ∃ j, j < n ∧ test j name ∧ ∀ k, j < k → k < n → ∀ other, ¬ test k other

/-- With tabs the function on a line is given to the wrong class: the nearest class line
that is one or four levels shallower is four levels shallower, and it does not name the
class of the nearest line that is one level shallower. -/
structure IsMisled (doc : Document) (n : Nat) (line name : Text) : Prop where
  function : ∃ f, Pattern.functionOn line = some f
  no_class : Pattern.classOn line = none
  far : ∃ j, j < n ∧ IsClassAbove doc line [4] j name ∧
    ∀ k, j < k → k < n → ∀ other, ¬ IsClassAbove doc line [1, 4] k other
  other : ¬ IsNearest (IsClassAbove doc line [1]) n name

/-- Where a test holds for a line above, there is a nearest one for which it does. -/
theorem exists_isNearest {test : Nat → Text → Prop} {n j : Nat} {name : Text} (hj : j < n)
    (h : test j name) : ∃ found, IsNearest test n found := by
  induction n with
  | zero => omega
  | succ n ih =>
      by_cases hLast : ∃ found, test n found
      · obtain ⟨found, hFound⟩ := hLast
        exact ⟨found, n, by omega, hFound, fun k hAfter hBefore => by omega⟩
      · have hNe : j ≠ n := fun hEq => hLast ⟨name, hEq ▸ h⟩
        obtain ⟨found, i, hi, hFound, hBetween⟩ := ih (by omega)
        refine ⟨found, i, by omega, hFound, fun k hAfter hBefore other hOther => ?_⟩
        by_cases hEnd : k = n
        · exact hLast ⟨other, hEnd ▸ hOther⟩
        · exact hBetween k hAfter (by omega) other hOther

section Styles

variable {doc : Document} {n : Nat} {line : Text}

theorem IsClassAbove.mono {levels levels' : List Nat} {j : Nat} {name : Text}
    (h : IsClassAbove doc line levels j name) (hLevels : levels ⊆ levels') :
    IsClassAbove doc line levels' j name := by
  obtain ⟨classLine, hAt, hClass, d, hd, hLevel⟩ := h
  exact ⟨classLine, hAt, hClass, d, hLevels hd, hLevel⟩

theorem IsClassAbove.one_or_four {j : Nat} {name : Text}
    (h : IsClassAbove doc line [1, 4] j name) :
    IsClassAbove doc line [1] j name ∨ IsClassAbove doc line [4] j name := by
  obtain ⟨classLine, hAt, hClass, d, hd, hLevel⟩ := h
  rcases List.mem_pair.1 hd with rfl | rfl
  · exact Or.inl ⟨classLine, hAt, hClass, 1, by simp, hLevel⟩
  · exact Or.inr ⟨classLine, hAt, hClass, 4, by simp, hLevel⟩

theorem isCandidate_iff_of_spaces (hDoc : ∀ l ∈ doc, IsSpaceIndented l)
    (hLine : IsSpaceIndented line) (j : Nat) (name : Text) :
    IsCandidate doc line j name ↔ IsClassAbove doc line [1] j name := by
  refine exists_congr fun classLine => and_congr_right fun hAt => and_congr_right fun _ => ?_
  rw [isDeeperByOne_iff_of_spaces hLine (hDoc classLine (List.mem_of_getElem? hAt))]
  simp

theorem isCandidate_iff_of_tabs (hDoc : ∀ l ∈ doc, IsSpaceIndented l)
    (hLine : IsSpaceIndented line) (j : Nat) (name : Text) :
    IsCandidate (doc.map withTabs) (withTabs line) j name ↔
      IsClassAbove doc line [1, 4] j name := by
  cases hAt : doc[j]? with
  | none => simp [IsCandidate, IsClassAbove, hAt]
  | some classLine =>
      have hClass := hDoc classLine (List.mem_of_getElem? hAt)
      simp [IsCandidate, IsClassAbove, hAt, hClass.classOn_withTabs,
        isDeeperByOne_iff_of_tabs hLine hClass]

/-- The class that the two styles give to a line with a function and no class. -/
theorem className_of_styles (hDoc : ∀ l ∈ doc, IsSpaceIndented l) (hLine : doc[n]? = some line)
    (hFunction : ∃ f, Pattern.functionOn line = some f) (hClass : Pattern.classOn line = none) :
    (∀ name, (namesAt doc n).className = some name ↔
        IsNearest (IsClassAbove doc line [1]) n name) ∧
      ∀ name, (namesAt (doc.map withTabs) n).className = some name ↔
        IsNearest (IsClassAbove doc line [1, 4]) n name := by
  have hIndented := hDoc line (List.mem_of_getElem? hLine)
  have hTabbed : (doc.map withTabs)[n]? = some (withTabs line) := by simp [hLine]
  constructor
  · intro name
    rw [className_namesAt hLine]
    simp [hClass, hFunction, IsNearestClass, IsNearest, isCandidate_iff_of_spaces hDoc hIndented]
  · intro name
    rw [className_namesAt hTabbed, hIndented.classOn_withTabs, hIndented.functionOn_withTabs]
    simp [hClass, hFunction, IsNearestClass, IsNearest, isCandidate_iff_of_tabs hDoc hIndented]

/-- A line with a class of its own, or without a function, has the same class in both
styles. -/
theorem className_withTabs (hDoc : ∀ l ∈ doc, IsSpaceIndented l) (hLine : doc[n]? = some line)
    (h : Pattern.classOn line ≠ none ∨ Pattern.functionOn line = none) :
    (namesAt (doc.map withTabs) n).className = (namesAt doc n).className := by
  have hIndented := hDoc line (List.mem_of_getElem? hLine)
  simp only [namesAt, List.getElem?_map, hLine, Option.map_some, hIndented.classOn_withTabs,
    hIndented.functionOn_withTabs]
  cases hClass : Pattern.classOn line with
  | some own => rfl
  | none =>
      have hFunction : Pattern.functionOn line = none := h.resolve_left fun hNe => hNe hClass
      simp [hFunction]

/-- A line has another class with tabs exactly when it is misled by a class that is
four levels shallower. -/
theorem className_ne_iff (hDoc : ∀ l ∈ doc, IsSpaceIndented l) (hLine : doc[n]? = some line) :
    (namesAt (doc.map withTabs) n).className ≠ (namesAt doc n).className ↔
      ∃ name, IsMisled doc n line name := by
  constructor
  · intro hDiffer
    have hClass : Pattern.classOn line = none := by
      by_contra hOwn
      exact hDiffer (className_withTabs hDoc hLine (Or.inl hOwn))
    have hFunction : ∃ f, Pattern.functionOn line = some f := by
      rw [← Option.ne_none_iff_exists']
      exact fun hNone => hDiffer (className_withTabs hDoc hLine (Or.inr hNone))
    obtain ⟨hSpaces, hTabs⟩ := className_of_styles hDoc hLine hFunction hClass
    cases hFound : (namesAt (doc.map withTabs) n).className with
    | none =>
        -- a class one level shallower would have been found with tabs as well
        rw [hFound] at hDiffer
        obtain ⟨own, hOwn⟩ := Option.ne_none_iff_exists'.1 hDiffer.symm
        obtain ⟨j, hj, hAbove, -⟩ := (hSpaces own).1 hOwn
        obtain ⟨name, hNearest⟩ :=
          exists_isNearest hj (hAbove.mono (List.subset_append_left [1] [4]))
        simp [(hTabs name).2 hNearest] at hFound
    | some name =>
        have hOther : ¬ IsNearest (IsClassAbove doc line [1]) n name := fun hNear =>
          hDiffer (hFound.trans ((hSpaces name).2 hNear).symm)
        obtain ⟨j, hj, hAbove, hBetween⟩ := (hTabs name).1 hFound
        rcases hAbove.one_or_four with hNear | hFar
        · exact absurd ⟨j, hj, hNear, fun k hAfter hBefore other hNearer =>
            hBetween k hAfter hBefore other (hNearer.mono (by simp))⟩ hOther
        · exact ⟨name, hFunction, hClass, ⟨j, hj, hFar, hBetween⟩, hOther⟩
  · rintro ⟨name, hMisled⟩ hSame
    obtain ⟨hSpaces, hTabs⟩ := className_of_styles hDoc hLine hMisled.function hMisled.no_class
    obtain ⟨j, hj, hFar, hBetween⟩ := hMisled.far
    have hFound : (namesAt (doc.map withTabs) n).className = some name :=
      (hTabs name).2 ⟨j, hj, hFar.mono (by simp), hBetween⟩
    exact hMisled.other ((hSpaces name).1 (hSame ▸ hFound))

theorem functionName_withTabs (hDoc : ∀ l ∈ doc, IsSpaceIndented l) (n : Nat) :
    (namesAt (doc.map withTabs) n).functionName = (namesAt doc n).functionName := by
  cases hLine : doc[n]? with
  | none => simp [namesAt, hLine]
  | some line =>
      simp [namesAt, hLine, (hDoc line (List.mem_of_getElem? hLine)).functionOn_withTabs]

end Styles

/-- In a document that is indented by four spaces for each level a function belongs to
the nearest class above it that is one level shallower. Writing the levels with tabs
leaves the function of every line as it was, and it leaves the class of a line as it was
exactly when the line is not misled: it defines no function, or a class of its own, or
the nearest class line that is one or four levels shallower is only one level shallower,
or names the same class as the nearest line that is. -/
theorem tabs_keep_classes_iff {doc : Document} (hDoc : ∀ line ∈ doc, IsSpaceIndented line)
    (view : View) (index : Int64) (path : Text) :
    (∀ (n : Nat) (line : Text), index.toInt = n → doc[n]? = some line →
      ∀ name, (elementAt view doc index path).className = some name ↔
        Pattern.classOn line = some name ∨
          Pattern.classOn line = none ∧ (∃ f, Pattern.functionOn line = some f) ∧
            IsNearest (IsClassAbove doc line [1]) n name) ∧
      (elementAt view (doc.map withTabs) index path).functionName =
        (elementAt view doc index path).functionName ∧
      ((elementAt view (doc.map withTabs) index path).className =
          (elementAt view doc index path).className ↔
        ∀ (n : Nat) (line : Text), index.toInt = n → doc[n]? = some line →
          ∀ name, ¬ IsMisled doc n line name) := by
  simp only [elementAt]
  refine ⟨fun n line hIndex hLine name => ?_, ?_⟩
  · have hIndented := hDoc line (List.mem_of_getElem? hLine)
    rw [namesAtIndex_of_toInt hIndex, className_namesAt hLine]
    simp only [IsNearestClass, IsNearest, isCandidate_iff_of_spaces hDoc hIndented]
  · by_cases hSign : index.toInt < 0
    · have hNone : ∀ d : Document, namesAtIndex d index = {} := fun d =>
        namesAtIndex_outside (Or.inl hSign)
      simp only [hNone, true_and, true_iff]
      intro n line hIndex
      omega
    · obtain ⟨n, hIndex⟩ := Int.eq_ofNat_of_zero_le (Int.not_lt.1 hSign)
      simp only [namesAtIndex_of_toInt hIndex]
      refine ⟨functionName_withTabs hDoc n, ?_, ?_⟩
      · intro hSame m line hm hLine name hMisled
        obtain rfl : m = n := by omega
        exact (className_ne_iff hDoc hLine).2 ⟨name, hMisled⟩ hSame
      · intro hNone
        by_contra hDiffer
        cases hLine : doc[n]? with
        | none => exact hDiffer (by simp [namesAt, hLine])
        | some line =>
            obtain ⟨name, hMisled⟩ := (className_ne_iff hDoc hLine).1 hDiffer
            exact hNone n line hIndex hLine name hMisled

/-- A method four levels deep below a class, with a class one level shallower above it
and a blank line and a deeper class in between. -/
def nestedDocument : Document :=
  [text "class A:", text "            class B:", text "", text "                    class C:",
    text "                def f():"]

/-- The method has the nearer class in both styles, so it is not misled by the farther
one. -/
theorem tabs_keep_class_of_method :
    (∀ line ∈ nestedDocument, IsSpaceIndented line) ∧
      (elementAt {} nestedDocument 4 (text "/w/a.py")).className = some (text "B") ∧
        ∀ name, ¬ IsMisled nestedDocument 4 (text "                def f():") name := by
  have hDoc : ∀ line ∈ nestedDocument, IsSpaceIndented line := by decide +kernel
  have hSpaces : (elementAt {} nestedDocument 4 (text "/w/a.py")).className = some (text "B") := by
    decide +kernel
  have hTabs : (elementAt {} (nestedDocument.map withTabs) 4 (text "/w/a.py")).className =
      some (text "B") := by
    decide +kernel
  refine ⟨hDoc, hSpaces, ?_⟩
  exact (tabs_keep_classes_iff hDoc {} 4 (text "/w/a.py")).2.2.1 (hTabs.trans hSpaces.symm) 4
    (text "                def f():") (by decide) (by decide)

/-- Sixteen spaces below a class without indentation are four levels, and the function
there belongs to no class. Four tabs are four levels too, but four columns, and the
function is given to the class. -/
theorem four_tabs_pass_for_one_level :
    let doc : Document := [text "class A:", text "                def f():"]
    (∀ line ∈ doc, IsSpaceIndented line) ∧
      doc.map withTabs = [text "class A:", text "\t\t\t\tdef f():"] ∧
        (elementAt {} doc 1 (text "/w/a.py")).className = none ∧
          (elementAt {} (doc.map withTabs) 1 (text "/w/a.py")).className = some (text "A") := by
  decide +kernel

end Document

end DottedNames
