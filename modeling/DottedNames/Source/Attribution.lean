import DottedNames.Source.Element
import DottedNames.Source.Pattern
import DottedNames.Text.Lines
import DottedNames.Text.Space

/-!
# Names at a line

The names of a line are those its own text defines. A function without a class
on its line is a method of the nearest class above that is exactly one level
shallower: four columns, or one column when that column of the function's line
is a tab. Class lines at any other depth are passed over; they close nothing.

A line outside the document has no names.

## Main results

* `namesAt_eq_empty` — a line past the end of the document has no names.
-/

namespace DottedNames

/-- The columns of one level of indentation with spaces. -/
def indentWidth : Nat := 4

/-- Whether a function's line is one level deeper than a class's line. -/
def isOneLevelBelow (functionLine classLine : Text) : Bool :=
  let inner := Text.indent functionLine
  let outer := Text.indent classLine
  inner == outer + indentWidth || (inner == outer + 1 && functionLine[outer]? == some Byte.tab)

/-- The class of a line, when a function on another line would belong to it. -/
def owningClass? (functionLine classLine : Text) : Option Text :=
  match Pattern.classOn classLine with
  | none => none
  | some name => if isOneLevelBelow functionLine classLine then some name else none

namespace Document

/-- The class that a function on line `n` belongs to, searched upwards. -/
def enclosingClass (doc : Document) (n : Nat) (functionLine : Text) : Option Text :=
  (doc.take n).reverse.findSome? (owningClass? functionLine)

/-- The names of line `n`, counted from zero. -/
def namesAt (doc : Document) (n : Nat) : Names :=
  match doc[n]? with
  | none => {}
  | some line =>
    let functionName := Pattern.functionOn line
    { className :=
        match Pattern.classOn line with
        | some name => some name
        | none => if functionName.isSome then enclosingClass doc n line else none
      functionName
      constantName := Pattern.assigned line }

/-- The names at a line index of either sign; none before the first line. -/
def namesAtIndex (doc : Document) (line : Int64) : Names :=
  if line.toInt < 0 then {} else namesAt doc line.toInt.toNat

/-- A line past the end of the document has no names. -/
theorem namesAt_eq_empty {doc : Document} {n : Nat} (h : doc.length ≤ n) :
    namesAt doc n = {} := by
  simp [namesAt, List.getElem?_eq_none h]

end Document

end DottedNames
