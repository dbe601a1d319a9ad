import DottedNames.Proofs.Attribution
import Mathlib.Algebra.Group.Nat.Defs
import Mathlib.Data.List.Basic

/-!
# What an outline lists

`Document.outline` goes through a document once, with the module path found
beforehand, while `Document.elementAt` starts afresh at every line. This file says
that the outline is nevertheless the elements of the lines, those without a name
left out, in the order of the lines.

The class that a method belongs to is found by a search upwards from the method.
The line where the search ends names a class itself, so the outline has an entry for
it, and nothing an entry refers to is missing from the outline.

Lines are counted by 64-bit numbers, which is why the documents here have no more
lines than those can count.

## Main results

* `mem_outline_iff` — which entries there are.
* `pairwise_outline` — the order they stand in.
* `outline_lists_definitions` — both, and that classes of methods are listed.
-/

namespace DottedNames

namespace Document

variable {view : View} {doc : Document} {path : Text}

/-- A line number that 64 bits can count is kept as it is. -/
theorem toInt_ofNat_of_lt_length (hLength : doc.length ≤ 2 ^ 63) {n : Nat} (h : n < doc.length) :
    (Int64.ofNat n).toInt = n :=
  Int64.toInt_ofNat_of_lt (by omega)

/-- The entry that a line has in the outline, if something is named on it. -/
def entryAt? (view : View) (doc : Document) (path : Text) (n : Nat) : Option Located :=
  if (namesAt doc n).isEmpty then none
  else some { line := Int64.ofNat n, element := elementAt view doc (Int64.ofNat n) path }

/-- Finding the module path once makes no difference. -/
theorem outline_eq (hLength : doc.length ≤ 2 ^ 63) :
    outline view doc path = (List.range doc.length).filterMap (entryAt? view doc path) := by
  apply List.filterMap_congr
  intro n hn
  have hLine := toInt_ofNat_of_lt_length hLength (List.mem_range.1 hn)
  simp only [entryAt?, elementAt, namesAtIndex_of_toInt hLine]

theorem entryAt?_eq_some_iff {n : Nat} {e : Located} :
    entryAt? view doc path n = some e ↔
      (namesAt doc n).isEmpty = false ∧ e.line = Int64.ofNat n ∧
        e.element = elementAt view doc e.line path := by
  unfold entryAt?
  by_cases hNone : (namesAt doc n).isEmpty = true
  · simp [hNone]
  · rw [if_neg hNone, Option.some_inj]
    constructor
    · rintro rfl
      exact ⟨by simpa using hNone, rfl, rfl⟩
    · rintro ⟨-, hLine, hElement⟩
      rw [← hLine, ← hElement]

/-- The entries are the elements of the lines on which something is named. -/
theorem mem_outline_iff (hLength : doc.length ≤ 2 ^ 63) {e : Located} :
    e ∈ outline view doc path ↔
      0 ≤ e.line.toInt ∧ e.line.toInt < doc.length ∧
        e.element = elementAt view doc e.line path ∧ e.element.toNames.isEmpty = false := by
  simp only [outline_eq hLength, List.mem_filterMap, List.mem_range, entryAt?_eq_some_iff]
  constructor
  · rintro ⟨n, hInside, hNamed, hLine, hElement⟩
    have hIndex : e.line.toInt = n := hLine ▸ toInt_ofNat_of_lt_length hLength hInside
    refine ⟨by omega, by omega, hElement, ?_⟩
    rw [hElement, elementAt, namesAtIndex_of_toInt hIndex]
    exact hNamed
  · rintro ⟨hFirst, hLast, hElement, hNamed⟩
    obtain ⟨n, hIndex⟩ := Int.eq_ofNat_of_zero_le hFirst
    have hInside : n < doc.length := by omega
    refine ⟨n, hInside, ?_, ?_, hElement⟩
    · rw [hElement, elementAt, namesAtIndex_of_toInt hIndex] at hNamed
      exact hNamed
    · apply Int64.toInt_inj.1
      rw [hIndex, toInt_ofNat_of_lt_length hLength hInside]

/-- The entries stand in the order of their lines, one for each line at most. -/
theorem pairwise_outline (hLength : doc.length ≤ 2 ^ 63) :
    (outline view doc path).Pairwise fun a b => a.line < b.line := by
  rw [outline_eq hLength, List.pairwise_filterMap]
  refine List.Pairwise.imp_of_mem ?_ List.pairwise_lt_range
  intro m n hm hn hLess a hFirst b hSecond
  obtain ⟨-, hFirstLine, -⟩ := entryAt?_eq_some_iff.1 hFirst
  obtain ⟨-, hSecondLine, -⟩ := entryAt?_eq_some_iff.1 hSecond
  rw [Int64.lt_iff_toInt_lt, hFirstLine, hSecondLine,
    toInt_ofNat_of_lt_length hLength (List.mem_range.1 hm),
    toInt_ofNat_of_lt_length hLength (List.mem_range.1 hn)]
  exact Int.ofNat_lt.2 hLess

/-- The class of a method is named on the method's line or on one above it. -/
theorem exists_classOn_of_className {n : Nat} {className : Text}
    (h : (namesAt doc n).className = some className) :
    ∃ j line, j ≤ n ∧ doc[j]? = some line ∧ Pattern.classOn line = some className := by
  cases hLine : doc[n]? with
  | none => simp [namesAt, hLine] at h
  | some line =>
      obtain hHere | ⟨-, -, j, hAbove, hCandidate, -⟩ := (className_namesAt hLine).1 h
      · exact ⟨n, line, Nat.le_refl n, hLine, hHere⟩
      · obtain ⟨classLine, hClassLine, hClass, -⟩ := hCandidate
        exact ⟨j, classLine, by omega, hClassLine, hClass⟩

/-- A line that names a class has an entry with that class. -/
theorem exists_entry_of_classOn (view : View) (path : Text) (hLength : doc.length ≤ 2 ^ 63)
    {j : Nat} {line className : Text} (hLine : doc[j]? = some line)
    (hClass : Pattern.classOn line = some className) :
    ∃ e ∈ outline view doc path, e.line.toInt = j ∧ e.element.className = some className := by
  have hInside : j < doc.length := (List.getElem?_eq_some_iff.1 hLine).1
  have hIndex := toInt_ofNat_of_lt_length hLength hInside
  have hName : (elementAt view doc (Int64.ofNat j) path).className = some className := by
    rw [elementAt, namesAtIndex_of_toInt hIndex]
    exact (className_namesAt hLine).2 (Or.inl hClass)
  refine ⟨{ line := Int64.ofNat j, element := elementAt view doc (Int64.ofNat j) path },
    (mem_outline_iff hLength).2 ?_, hIndex, hName⟩
  simp [Names.isEmpty, hName, hIndex, hInside]

/-- The outline of a document has an entry for each line on which something is named,
with the element of that line, and no others. The entries stand in the order of the
lines. Where an entry has both a function and a class, an entry at the same line or
an earlier one is for a line that defines the class itself. -/
theorem outline_lists_definitions (view : View) (doc : Document) (path : Text)
    (hLength : doc.length ≤ 2 ^ 63) :
    (∀ e, e ∈ outline view doc path ↔
      0 ≤ e.line.toInt ∧ e.line.toInt < doc.length ∧
        e.element = elementAt view doc e.line path ∧ e.element.toNames.isEmpty = false) ∧
      (outline view doc path).Pairwise (fun a b => a.line < b.line) ∧
      ∀ e ∈ outline view doc path, ∀ className functionName,
        e.element.className = some className → e.element.functionName = some functionName →
          ∃ owner ∈ outline view doc path, owner.line ≤ e.line ∧
            owner.element.className = some className ∧
            ∃ line, doc[owner.line.toInt.toNat]? = some line ∧
              Pattern.classOn line = some className := by
  refine ⟨fun e => mem_outline_iff hLength, pairwise_outline hLength, ?_⟩
  intro e hEntry className functionName hClass _
  obtain ⟨hFirst, -, hElement, -⟩ := (mem_outline_iff hLength).1 hEntry
  obtain ⟨n, hIndex⟩ := Int.eq_ofNat_of_zero_le hFirst
  rw [hElement, elementAt, namesAtIndex_of_toInt hIndex] at hClass
  obtain ⟨j, line, hAbove, hLine, hDefined⟩ := exists_classOn_of_className hClass
  obtain ⟨owner, hOwner, hOwnerLine, hOwnerClass⟩ :=
    exists_entry_of_classOn view path hLength hLine hDefined
  refine ⟨owner, hOwner, ?_, hOwnerClass, line, ?_, hDefined⟩
  · rw [Int64.le_iff_toInt_le, hOwnerLine, hIndex]
    exact Int.ofNat_le.2 hAbove
  · rw [hOwnerLine]
    exact hLine

/-- A method two lines below its class, with a class in between that is no shallower
and a constant after it. -/
def nestedSample : Document :=
  [text "class A:", text "    class B: pass", text "    def f(self):", text "X = 1"]

/-- The method's class is listed, and it is not the nearest class above. -/
theorem outline_lists_class_of_method :
    ∃ owner ∈ outline {} nestedSample (text "/m.py"), owner.line ≤ 2 ∧
      owner.element.className = some (text "A") ∧
      ∃ line, nestedSample[owner.line.toInt.toNat]? = some line ∧
        Pattern.classOn line = some (text "A") := by
  have hLength : nestedSample.length ≤ 2 ^ 63 := by decide
  have hAll := outline_lists_definitions {} nestedSample (text "/m.py") hLength
  have hMethod : (elementAt {} nestedSample 2 (text "/m.py")).toNames =
      { className := some (text "A"), functionName := some (text "f") } := by decide +kernel
  refine hAll.2.2 { line := 2, element := elementAt {} nestedSample 2 (text "/m.py") } ?_
    (text "A") (text "f") ?_ ?_
  · refine (hAll.1 _).2 ⟨by decide, by decide, rfl, ?_⟩
    rw [hMethod]
    rfl
  · exact congrArg Names.className hMethod
  · exact congrArg Names.functionName hMethod

end Document

end DottedNames
