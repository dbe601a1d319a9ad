import DottedNames.Disk.Basic

/-!
# Surveys

A survey goes through a directory tree and lists the directories and the
Python files in it. Symbolic links are listed like files and never entered.
Directories that hold no project sources, hidden ones and two well-known
names, are passed over with all they contain, except that the root of the
workspace is always entered.

A start that is no directory is itself the whole survey. A start that is not
there at all is the only failure: a directory that is there can be listed,
since a disk does not resist, and one that is reached under a path that leads
nowhere adds nothing.
-/

namespace DottedNames

/-- What a survey found, by path. -/
structure Survey where
  directories : List Text := []
  files : List Text := []
deriving DecidableEq, Repr

namespace Survey

/-- One survey after another. -/
def append (a b : Survey) : Survey :=
  { directories := a.directories ++ b.directories, files := a.files ++ b.files }

/-- Whether directories of a name are passed over. -/
def isSkipped (name : Text) : Bool :=
  name.head? == some Byte.dot || name == text "__pycache__" || name == text "node_modules"

/-- Whether a directory is entered. -/
def enters (root path name : Text) : Bool := path == root || !isSkipped name

/-- The survey of a path that is not a directory. -/
def ofFile (path : Text) : Survey := { files := if Path.isPython path then [path] else [] }

/-- The names and entries of the directory a path leads to. -/
def listing (view : View) (path : Text) : List (Text × Entry) :=
  match view.locate { follow := true, absent := false } path with
  | .ok loc => view.disk.children loc
  | .error _ => []

/-- The survey of a directory that is entered, down to a given depth. -/
def ofDirectory (view : View) (root : Text) : (depth : Nat) → (path : Text) → Survey
  | 0, path => { directories := [path] }
  | depth + 1, path =>
    (listing view path).foldl
      (fun survey (name, entry) =>
        let child := Path.join path name
        match entry with
        | .directory =>
          if enters root child name then survey.append (ofDirectory view root depth child)
          else survey
        | _ => survey.append (ofFile child))
      { directories := [path] }

/-- The survey that starts at a path. -/
def start (view : View) (root path : Text) : Except Failure Survey :=
  match view.inspect path with
  | .error fault => .error ⟨.inspecting, path, fault⟩
  | .ok .directory =>
    if enters root path (Path.base path) then
      .ok (ofDirectory view root (view.disk.depth + 1) path)
    else .ok {}
  | .ok _ => .ok (ofFile path)

end Survey

end DottedNames
