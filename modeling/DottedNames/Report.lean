import DottedNames.Json.Basic
import DottedNames.Source.Element

/-!
# Reports

A list of elements is reported in one of two formats. The `json` format is an
array with one object an element, names that are absent left out; the `line`
format is one record a line, its fields separated by tabs. Both count lines
from one, in 64-bit arithmetic that wraps around.

A `Reporter` is asked for one list after the other and remembers the last.
What it writes for a list depends on that list alone.
-/

namespace DottedNames

/-- The formats of a report. -/
inductive Format where
  | json
  | line
deriving DecidableEq, Repr

/-- The format with a given name. -/
def Format.ofName? (name : Text) : Option Format :=
  if name = text "json" then some .json
  else if name = text "line" then some .line
  else none

namespace Located

/-- The line as it is shown, counted from one. -/
def shownLine (e : Located) : Int := (e.line + 1).toInt

/-- A member with a name, left out when the name is absent. -/
def optionalMember (key : String) (name : Option Text) : List (Text × Json) :=
  match name with
  | some name => [(text key, .string name)]
  | none => []

/-- The object that describes an element in the `json` format. -/
def toJson (e : Located) : Json :=
  .object (
    [(text "line", .ofInt e.shownLine), (text "kind", .string e.element.kind.word),
      (text "module", .string e.element.modulePath)] ++
    optionalMember "class" e.element.className ++
    optionalMember "method" e.element.functionName ++
    optionalMember "constant" e.element.constantName ++
    [(text "qualifiedPath", .string e.element.qualifiedPath),
      (text "import", .string e.element.importStatement)])

/-- The record that describes an element in the `line` format. -/
def toRecord (e : Located) : Text :=
  Text.join [Byte.tab] [Text.integer e.shownLine, e.element.kind.word,
    e.element.qualifiedPath, e.element.importStatement] ++ [Byte.newline]

end Located

/-- The text of a report. -/
def Format.report (format : Format) (elements : List Located) : Text :=
  match format with
  | .json => (Json.array (elements.map Located.toJson)).indented
  | .line => elements.flatMap Located.toRecord

/-- What a report looks like where it is written out: the `json` format gets a
newline at its end, the `line` format already has one. -/
def Format.written (format : Format) (elements : List Located) : Text :=
  match format with
  | .json => format.report elements ++ [Byte.newline]
  | .line => format.report elements

/-- A format and the elements last reported in it. -/
structure Reporter where
  format : Format
  held : List Located := []
deriving DecidableEq, Repr

namespace Reporter

/-- The text of the last report. -/
def current (r : Reporter) : Text := r.format.report r.held

/-- Reports a list of elements: what to write, and the reporter afterwards. -/
def report (r : Reporter) (elements : List Located) : Text × Reporter :=
  let next := { r with held := elements }
  (r.format.written elements, next)

end Reporter

end DottedNames
