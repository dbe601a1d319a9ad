import DottedNames.Text.Basic

/-!
# Paths and their normal form

A path is a text whose names are separated by slashes. Its normal form drops
empty names and `.`, and lets `..` cancel the name before it; at the top of a
rooted path `..` has nothing to cancel and is dropped, while a relative path
keeps the `..` it begins with. The normal form is a `Trail`: whether the path
starts at the root, and its names. All of this is lexical, no disk is asked.

`clean` writes the normal form back as a text. A trail without names is `/`
when it is rooted and `.` when it is not.
-/

namespace DottedNames

/-- A path in normal form. -/
structure Trail where
  /-- Whether the path starts at the root of the file tree. -/
  rooted : Bool
  /-- The names from the top down. -/
  names : List Text
deriving DecidableEq, Repr

namespace Trail

/-- The name of the directory itself. -/
def here : Text := [Byte.dot]

/-- The name of the directory above. -/
def above : Text := [Byte.dot, Byte.dot]

/-- Goes on by one name from the names walked so far, nearest first. -/
def advance (rooted : Bool) (walked : List Text) (name : Text) : List Text :=
  if name = [] ∨ name = here then walked
  else if name = above then
    match walked with
    | [] => if rooted then [] else [above]
    | last :: before => if last = above then above :: last :: before else before
  else name :: walked

/-- The normal form of a path. -/
def ofText (path : Text) : Trail :=
  let rooted := path.head? == some Byte.slash
  { rooted, names := ((Text.splitOn Byte.slash path).foldl (advance rooted) []).reverse }

/-- The shortest text with a given normal form. -/
def toText (trail : Trail) : Text :=
  match trail.rooted, trail.names with
  | true, names => Byte.slash :: Text.join [Byte.slash] names
  | false, [] => here
  | false, names => Text.join [Byte.slash] names

/-- The trail without its last name; the topmost trail is its own parent. -/
def parent (trail : Trail) : Trail := { trail with names := trail.names.dropLast }

/-- The non-empty lists of names on the way up, given the names from the bottom
up. -/
def upward : List Text → List (List Text)
  | [] => []
  | name :: rest => (name :: rest).reverse :: upward rest

/-- The trail and its parents that still have a name, nearest first. -/
def chain (trail : Trail) : List Trail :=
  (upward trail.names.reverse).map fun names => { trail with names }

end Trail

namespace Path

/-- Whether a path starts at the root of the file tree. -/
def isRooted (path : Text) : Bool := path.head? == some Byte.slash

/-- The shortest path with the same normal form. -/
def clean (path : Text) : Text := (Trail.ofText path).toText

/-- The normal form of everything up to the last slash. -/
def dirTrail (path : Text) : Trail :=
  Trail.ofText (path.reverse.dropWhile (· != Byte.slash)).reverse

/-- The directory a path lies in. -/
def dir (path : Text) : Text := (dirTrail path).toText

/-- The last name of a path: `.` for the empty path, `/` for slashes only. -/
def base (path : Text) : Text :=
  if path.isEmpty then Trail.here
  else match path.reverse.dropWhile (· == Byte.slash) with
    | [] => [Byte.slash]
    | tail => (tail.takeWhile (· != Byte.slash)).reverse

/-- The path of a name inside a directory. -/
def join (dir name : Text) : Text :=
  clean (if dir.isEmpty then name else dir ++ Byte.slash :: name)

/-- The rooted path that a path means in a current directory. -/
def absolute (current path : Text) : Text :=
  if isRooted path then clean path else join current path

/-- The ending of a Python source file. -/
def pythonSuffix : Text := text ".py"

/-- Whether a path names a Python source file. -/
def isPython (path : Text) : Bool := pythonSuffix.isSuffixOf path

end Path

end DottedNames
