import DottedNames.Text.Numeral
import DottedNames.Text.Quoted

/-!
# Line arguments

A line on the command line is a decimal numeral, counted from one. Inside the
library lines are counted from zero, so the number that is read is one less.
-/

namespace DottedNames

namespace CommandLine

/-- Why a line argument is refused. -/
inductive LineFault where
  /-- The argument is no numeral of the right range. -/
  | unreadable (argument : Text) (fault : Numeral.Fault)
  /-- The number is not a line: lines start at one. -/
  | belowOne (number : Int)
deriving DecidableEq, Repr

/-- The wording of a fault. -/
def LineFault.message : LineFault → Text
  | unreadable argument fault =>
    text "invalid line " ++ Text.quote argument ++ text ": strconv.Atoi: parsing " ++
      Text.quote argument ++ text ": " ++ fault.message
  | belowOne number =>
    text "invalid line " ++ Text.integer number ++ text ": lines start at 1"

/-- The line an argument names, counted from zero. -/
def readLine (argument : Text) : Except LineFault Int64 :=
  match Numeral.readInteger argument with
  | .error fault => .error (.unreadable argument fault)
  | .ok number =>
    if number < 1 then .error (.belowOne number) else .ok (Int64.ofInt (number - 1))

end CommandLine

end DottedNames
