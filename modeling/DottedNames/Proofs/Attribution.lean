import DottedNames.Source.Outline

/-!
# Which class a line belongs to

`Document.enclosingClass` searches upwards from a function's line and stops at
the first line it accepts. This file says what it finds without the search: the
class of the nearest line above that names a class one level shallower. Whether
a line is accepted depends on that line and on the function's line alone, so
lines without a class above, and all lines below, have no part in the result.

A column of the function's line is looked at only when the class is exactly one
column shallower, and then the column lies inside the line.

## Main results

* `enclosingClass_eq_some_iff` — the search finds the nearest candidate.
* `namesAt_edit` — names depend on the line and on the class lines above it.
* `names_of_elementAt` — the rule for the names of every line of a document.
-/

namespace DottedNames

/-- A function's line is one level deeper than a class's line: four columns, or
one column that is a tab. -/
def IsDeeperByOne (functionLine classLine : Text) : Prop :=
  Text.indent functionLine = Text.indent classLine + 4 ∨
    Text.indent functionLine = Text.indent classLine + 1 ∧
      functionLine[Text.indent classLine]? = some Byte.tab

/-- One column past the indentation of a shallower line still lies inside the
line, blank lines included. -/
theorem indent_lt_length {functionLine classLine : Text}
    (h : Text.indent functionLine = Text.indent classLine + 1) :
    Text.indent classLine < functionLine.length := by
  have hInside := Text.indent_le_length functionLine
  omega

theorem isOneLevelBelow_iff (functionLine classLine : Text) :
    isOneLevelBelow functionLine classLine = true ↔ IsDeeperByOne functionLine classLine := by
  simp only [isOneLevelBelow, IsDeeperByOne, indentWidth, Bool.or_eq_true, Bool.and_eq_true,
    beq_iff_eq]

theorem owningClass?_eq_some_iff {functionLine classLine name : Text} :
    owningClass? functionLine classLine = some name ↔
      Pattern.classOn classLine = some name ∧ IsDeeperByOne functionLine classLine := by
  unfold owningClass?
  cases hClass : Pattern.classOn classLine with
  | none => simp
  | some found =>
      rw [← isOneLevelBelow_iff]
      by_cases hLevel : isOneLevelBelow functionLine classLine = true
      · simp [hLevel]
      · simp [hLevel]

theorem owningClass?_eq_none_of_classOn {functionLine classLine : Text}
    (h : Pattern.classOn classLine = none) : owningClass? functionLine classLine = none := by
  simp [owningClass?, h]

namespace Document

/-- Line `j` names a class that the function may belong to. -/
def IsCandidate (doc : Document) (functionLine : Text) (j : Nat) (name : Text) : Prop :=
  ∃ classLine, doc[j]? = some classLine ∧ Pattern.classOn classLine = some name ∧
    IsDeeperByOne functionLine classLine

/-- The class on the nearest candidate above line `n`. -/
def IsNearestClass (doc : Document) (n : Nat) (functionLine name : Text) : Prop :=
  ∃ j, j < n ∧ IsCandidate doc functionLine j name ∧
    ∀ k, j < k → k < n → ∀ other, ¬ IsCandidate doc functionLine k other

/-! ## The search upwards -/

/-- One step of the search: the line just above is tried first. -/
theorem enclosingClass_succ (doc : Document) (n : Nat) (functionLine : Text) :
    enclosingClass doc (n + 1) functionLine =
      ((doc[n]?).bind (owningClass? functionLine)).or (enclosingClass doc n functionLine) := by
  unfold enclosingClass
  rw [List.take_add_one, List.reverse_append, List.findSome?_append]
  cases doc[n]? with
  | none => simp
  | some line =>
      simp only [Option.toList_some, List.reverse_singleton, List.findSome?_cons,
        List.findSome?_nil, Option.bind_some]
      cases owningClass? functionLine line <;> rfl

theorem isCandidate_iff_bind {doc : Document} {functionLine name : Text} {j : Nat} :
    IsCandidate doc functionLine j name ↔
      (doc[j]?).bind (owningClass? functionLine) = some name := by
  rw [Option.bind_eq_some_iff]
  simp only [IsCandidate, owningClass?_eq_some_iff]

/-- The search finds the nearest candidate, and nothing when there is none. -/
theorem enclosingClass_eq_some_iff (doc : Document) (n : Nat) (functionLine name : Text) :
    enclosingClass doc n functionLine = some name ↔
      IsNearestClass doc n functionLine name := by
  induction n with
  | zero => simp [enclosingClass, IsNearestClass]
  | succ n ih =>
      rw [enclosingClass_succ]
      cases hHere : (doc[n]?).bind (owningClass? functionLine) with
      | some found =>
          -- The line just above is a candidate, so no line further up counts.
          have hFound : IsCandidate doc functionLine n found := isCandidate_iff_bind.2 hHere
          simp only [Option.some_or, Option.some.injEq]
          constructor
          · intro hName
            refine ⟨n, by omega, hName ▸ hFound, ?_⟩
            intro k hAfter hBefore
            omega
          · rintro ⟨j, hj, hCandidate, hNearest⟩
            by_cases hLast : j = n
            · subst hLast
              rw [isCandidate_iff_bind, hHere] at hCandidate
              exact Option.some.inj hCandidate
            · exact absurd hFound (hNearest n (by omega) (by omega) found)
      | none =>
          have hNone : ∀ other, ¬ IsCandidate doc functionLine n other := by
            intro other hOther
            rw [isCandidate_iff_bind, hHere] at hOther
            exact absurd hOther (by simp)
          rw [Option.none_or, ih]
          constructor
          · rintro ⟨j, hj, hCandidate, hNearest⟩
            refine ⟨j, by omega, hCandidate, ?_⟩
            intro k hAfter hBefore
            by_cases hLast : k = n
            · exact hLast ▸ hNone
            · exact hNearest k hAfter (by omega)
          · rintro ⟨j, hj, hCandidate, hNearest⟩
            have hNotLast : j ≠ n := fun hLast => hNone name (hLast ▸ hCandidate)
            exact ⟨j, by omega, hCandidate, fun k hAfter hBefore =>
              hNearest k hAfter (by omega)⟩

/-! ## Edits elsewhere in the document -/

/-- Only the lines above are searched. -/
theorem enclosingClass_length (above rest : Document) (functionLine : Text) :
    enclosingClass (above ++ rest) above.length functionLine =
      above.reverse.findSome? (owningClass? functionLine) := by
  rw [enclosingClass, List.take_left]

/-- Lines without a class are never accepted. -/
theorem findSome?_owningClass?_eq_none {lines : Document} (functionLine : Text)
    (h : ∀ line ∈ lines, Pattern.classOn line = none) :
    lines.reverse.findSome? (owningClass? functionLine) = none := by
  rw [List.findSome?_eq_none_iff]
  intro line hLine
  exact owningClass?_eq_none_of_classOn (h line (List.mem_reverse.1 hLine))

/-- The search passes over a stretch of lines without a class. -/
theorem enclosingClass_skip (above between kept rest : Document) (functionLine : Text)
    (h : ∀ line ∈ between, Pattern.classOn line = none) :
    enclosingClass (above ++ between ++ kept ++ rest) (above ++ between ++ kept).length
        functionLine =
      (above ++ kept).reverse.findSome? (owningClass? functionLine) := by
  rw [enclosingClass_length]
  simp only [List.reverse_append, List.findSome?_append]
  rw [findSome?_owningClass?_eq_none functionLine h, Option.none_or]

/-- Two documents give a line the same names when their searches agree on it. -/
theorem namesAt_congr {doc doc' : Document} {n n' : Nat} {line : Text}
    (h : doc[n]? = some line) (h' : doc'[n']? = some line)
    (hClass : enclosingClass doc n line = enclosingClass doc' n' line) :
    namesAt doc n = namesAt doc' n' := by
  simp only [namesAt, h, h', hClass]

/-- The names of a line stay the same when a stretch without classes above it
is exchanged for another one, of any length, and everything below changes. -/
theorem namesAt_edit (above old new kept : Document) (line : Text) (below below' : Document)
    (hOld : ∀ l ∈ old, Pattern.classOn l = none) (hNew : ∀ l ∈ new, Pattern.classOn l = none) :
    namesAt (above ++ old ++ kept ++ line :: below) (above ++ old ++ kept).length =
      namesAt (above ++ new ++ kept ++ line :: below') (above ++ new ++ kept).length := by
  have hLine : ∀ lines rest : Document, (lines ++ line :: rest)[lines.length]? = some line :=
    fun lines rest => by simp
  apply namesAt_congr (hLine _ below) (hLine _ below')
  rw [enclosingClass_skip above old kept _ line hOld, enclosingClass_skip above new kept _ line hNew]

/-! ## The names of a line -/

theorem namesAtIndex_of_toInt {doc : Document} {index : Int64} {n : Nat}
    (h : index.toInt = n) : namesAtIndex doc index = namesAt doc n := by
  have hSign : ¬ index.toInt < 0 := by omega
  have hNat : index.toInt.toNat = n := by omega
  rw [namesAtIndex, if_neg hSign, hNat]

theorem namesAtIndex_outside {doc : Document} {index : Int64}
    (h : index.toInt < 0 ∨ (doc.length : Int) ≤ index.toInt) : namesAtIndex doc index = {} := by
  unfold namesAtIndex
  split
  · rfl
  · exact namesAt_eq_empty (by omega)

theorem className_namesAt {doc : Document} {n : Nat} {line name : Text}
    (h : doc[n]? = some line) :
    (namesAt doc n).className = some name ↔
      Pattern.classOn line = some name ∨
        Pattern.classOn line = none ∧ (∃ f, Pattern.functionOn line = some f) ∧
          IsNearestClass doc n line name := by
  rw [← enclosingClass_eq_some_iff]
  simp only [namesAt, h]
  cases hClass : Pattern.classOn line with
  | some own => simp
  | none =>
      cases hFunction : Pattern.functionOn line with
      | some f => simp
      | none => simp

/-- The names at a line. Outside the document there are none. Inside it the
function is the one on the line; the class is the one on the line, or else, for
a function, the one on the nearest line above that is a level shallower. The
column the rule looks at is inside the line. Lines without a class above the
line, and all lines below it, can be exchanged for others. -/
theorem names_of_elementAt (view : View) (path : Text) (doc : Document) (index : Int64) :
    (index.toInt < 0 ∨ (doc.length : Int) ≤ index.toInt →
        (elementAt view doc index path).toNames = {}) ∧
      (∀ (n : Nat) (line : Text), index.toInt = n → doc[n]? = some line →
        (elementAt view doc index path).functionName = Pattern.functionOn line ∧
          ∀ name, (elementAt view doc index path).className = some name ↔
            Pattern.classOn line = some name ∨
              Pattern.classOn line = none ∧ (∃ f, Pattern.functionOn line = some f) ∧
                IsNearestClass doc n line name) ∧
      (∀ functionLine classLine : Text,
        Text.indent functionLine = Text.indent classLine + 1 →
          Text.indent classLine < functionLine.length) ∧
      ∀ (above old new kept : Document) (line : Text) (below below' : Document) (index' : Int64),
        doc = above ++ old ++ kept ++ line :: below →
        index.toInt = ((above ++ old ++ kept).length : Nat) →
        index'.toInt = ((above ++ new ++ kept).length : Nat) →
        (∀ l ∈ old ++ new, Pattern.classOn l = none) →
          (elementAt view (above ++ new ++ kept ++ line :: below') index' path).toNames =
            (elementAt view doc index path).toNames := by
  refine ⟨fun hOutside => namesAtIndex_outside hOutside, ?_, fun _ _ => indent_lt_length, ?_⟩
  · intro n line hIndex hLine
    have hNames : (elementAt view doc index path).toNames = namesAt doc n :=
      namesAtIndex_of_toInt hIndex
    rw [hNames]
    exact ⟨by simp [namesAt, hLine], fun name => className_namesAt hLine⟩
  · intro above old new kept line below below' index' hDoc hIndex hIndex' hPlain
    have hOld : ∀ l ∈ old, Pattern.classOn l = none := fun l hl =>
      hPlain l (List.mem_append_left _ hl)
    have hNew : ∀ l ∈ new, Pattern.classOn l = none := fun l hl =>
      hPlain l (List.mem_append_right _ hl)
    simp only [elementAt]
    rw [namesAtIndex_of_toInt hIndex, namesAtIndex_of_toInt hIndex', hDoc]
    exact (namesAt_edit above old new kept line below below' hOld hNew).symm

end Document

end DottedNames
