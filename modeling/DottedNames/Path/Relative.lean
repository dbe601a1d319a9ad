import DottedNames.Path.Basic

/-!
# Relative paths

The path from one directory to another, found by names alone: the names the
two have in common fall away, each name left of the first is a step up, and
then the names left of the second lead down. There is no such path between a
rooted and a relative one, and none when the first step up would have to undo
a `..`, since nobody can tell which directory lies below it.
-/

namespace DottedNames

namespace Trail

/-- The names that lead from the directory `base` to `target`, when the two
differ from their first names on. -/
def climb (base target : List Text) : Option (List Text) :=
  if base.head? = some above then none
  else some (base.map (fun _ => above) ++ target)

/-- The names that lead from `base` to `target`. -/
def between : List Text → List Text → Option (List Text)
  | b :: base, t :: target =>
    if b = t then between base target else climb (b :: base) (t :: target)
  | base, target => climb base target

end Trail

namespace Path

/-- The path that leads from the directory `base` to `target`. -/
def relative? (base target : Text) : Option Text :=
  let start := Trail.ofText base
  let goal := Trail.ofText target
  if start.rooted != goal.rooted then none
  else (Trail.between start.names goal.names).map fun names =>
    clean (Text.join [Byte.slash] names)

end Path

end DottedNames
