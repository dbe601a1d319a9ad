import DottedNames.Disk.Basic
import DottedNames.Path.Relative

/-!
# Projects and module paths

A project is marked at its top by one of a few well-known names. The project
of a file is found by going up from the file's directory to the first one that
holds a marker, of any type, a dangling link included. The topmost directory
is never asked. Where nothing is marked, the file's own directory stands in.

The module path of a file is its path below the project's root with dots for
slashes and without the ending of a source file. Backslashes count as slashes.

## Main results

* `locate_eq_of_marked`, `locate_eq_of_unmarked` — the two ways the search ends.
-/

namespace DottedNames

/-- The top of a project tree. -/
structure Project where
  /-- The directory at the top. -/
  root : Text
  /-- The marker found there; none when the directory only stands in. -/
  marker : Option Text
deriving DecidableEq, Repr

namespace Project

/-- The names that mark the top of a project, in the order they are tried. -/
def markers : List Text := [text "pyproject.toml", text ".git", text ".vscode"]

/-- The first marker present in a directory. -/
def markerIn (view : View) (dir : Text) : Option Text :=
  markers.find? fun name => view.isPresent (Path.join dir name)

/-- The project that a directory is the marked top of. -/
def markedAt (view : View) (dir : Trail) : Option Project :=
  (markerIn view dir.toText).map fun name => { root := dir.toText, marker := some name }

/-- The project a file belongs to. The file itself need not exist. -/
def locate (view : View) (path : Text) : Project :=
  let start := Path.dirTrail path
  match start.chain.findSome? (markedAt view) with
  | some project => project
  | none => { root := start.toText, marker := none }

/-- The dotted path of a file below a root. -/
def modulePath (root path : Text) : Text :=
  let below := (Path.relative? root path).getD (Path.base path)
  (Text.trimSuffix Path.pythonSuffix below).map fun b =>
    if b = Byte.slash ∨ b = Byte.backslash then Byte.dot else b

/-- The dotted path of a file below the root of its project. -/
def modulePathOf (view : View) (path : Text) : Text :=
  modulePath (locate view path).root path

theorem locate_eq_of_marked {view : View} {path : Text} {project : Project}
    (h : (Path.dirTrail path).chain.findSome? (markedAt view) = some project) :
    locate view path = project := by
  simp [locate, h]

theorem locate_eq_of_unmarked {view : View} {path : Text}
    (h : (Path.dirTrail path).chain.findSome? (markedAt view) = none) :
    locate view path = { root := Path.dir path, marker := none } := by
  simp [locate, h, Path.dir]

end Project

end DottedNames
