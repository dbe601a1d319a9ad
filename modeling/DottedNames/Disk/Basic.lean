import DottedNames.Path.Basic

/-!
# Disks

A disk is a finite tree of files, symbolic links and directories, kept as a
table from locations to entries. A location is the list of names from the
root; the root itself is always there and is a directory.

Paths are resolved name by name. A name can only be looked up in a directory,
`.` and an empty name included, so a slash after a file is a fault. A symbolic
link on the way is replaced by the names of its target, at most forty times.
Whether a link in the last place is followed too is the caller's choice.

A `View` is a disk seen from a current directory. It answers what a program
asks of a disk: what a path refers to, with or without following a last link,
and what a file holds. The failures name the path as it was given.

A disk has no permissions and its operations do not fail of themselves. That
what a path leads to can be read and listed is an assumption about disks; the
places where a real system may refuse are left to `Resistance`, which is laid
over a disk where it matters.
-/

namespace DottedNames

/-- The names that lead from the root of the tree to a place in it. -/
abbrev Location := List Text

/-- What can stand at a location. -/
inductive Entry where
  | file (content : Text)
  | link (target : Text)
  | directory
deriving DecidableEq, Repr

/-- A tree of entries, as a table from locations. -/
structure Disk where
  entries : List (Location × Entry) := []
deriving DecidableEq, Repr

/-- Why a path cannot be used. -/
inductive Fault where
  | notFound
  | notDirectory
  | isDirectory
  | linkLoop
  | nameTooLong
  | invalidPath
  /-- Permission is missing. No disk says so, only what is laid over it. -/
  | denied
deriving DecidableEq, Repr

/-- The wording of a fault. -/
def Fault.message : Fault → Text
  | .notFound => text "no such file or directory"
  | .notDirectory => text "not a directory"
  | .isDirectory => text "is a directory"
  | .linkLoop => text "too many levels of symbolic links"
  | .nameTooLong => text "file name too long"
  | .invalidPath => text "invalid argument"
  | .denied => text "permission denied"

/-- What was attempted when a fault arose. -/
inductive Attempt where
  | opening
  | reading
  | inspecting
deriving DecidableEq, Repr

/-- The word for an attempt. -/
def Attempt.word : Attempt → Text
  | .opening => text "open"
  | .reading => text "read"
  | .inspecting => text "lstat"

/-- A fault together with what was attempted and the path as it was given. -/
structure Failure where
  attempt : Attempt
  path : Text
  fault : Fault
deriving DecidableEq, Repr

/-- The wording of a failure. -/
def Failure.message (f : Failure) : Text :=
  f.attempt.word ++ text " " ++ f.path ++ text ": " ++ f.fault.message

namespace Disk

/-- The entry at a location. -/
def get? (disk : Disk) : Location → Option Entry
  | [] => some .directory
  | name :: rest => disk.entries.lookup (name :: rest)

/-- Puts an entry at a location, in place of the one that stood there. -/
def insert (disk : Disk) (loc : Location) (entry : Entry) : Disk :=
  { entries := (loc, entry) :: disk.entries.filter fun e => e.1 != loc }

/-- Takes away a location and everything below it. -/
def eraseTree (disk : Disk) (loc : Location) : Disk :=
  { entries := disk.entries.filter fun e => !loc.isPrefixOf e.1 }

/-- The names directly inside a location, with their entries. -/
def children (disk : Disk) (loc : Location) : List (Text × Entry) :=
  disk.entries.filterMap fun e =>
    match e.1.getLast? with
    | some name => if e.1.dropLast = loc then some (name, e.2) else none
    | none => none

/-- The number of names of the deepest location. -/
def depth (disk : Disk) : Nat := (disk.entries.map fun e => e.1.length).foldl max 0

/-- How the last name of a path is treated. -/
structure Ending where
  /-- Whether a symbolic link in the last place is followed. -/
  follow : Bool
  /-- Whether the last name may be absent, as for a file yet to be made. -/
  absent : Bool
deriving DecidableEq, Repr

/-- How far a path leads before a link has to be replaced. -/
inductive Passage where
  /-- The path ends at a location. -/
  | arrived (loc : Location)
  /-- A link is met: from a location the given names are still to be walked. -/
  | redirected (loc : Location) (names : List Text)
deriving DecidableEq, Repr

/-- The longest name a directory can hold, in bytes. -/
def maxName : Nat := 255

/-- The length a path has to stay below, in bytes. -/
def maxPath : Nat := 4096

/-- How many links one path may lead through. -/
def maxLinks : Nat := 40

/-- Walks names from a location until they end or a link is met. -/
def walk (disk : Disk) (ending : Ending) (loc : Location) : List Text → Except Fault Passage
  | [] => .ok (.arrived loc)
  | name :: rest =>
    match disk.get? loc with
    | some .directory =>
      if name = [] ∨ name = Trail.here then walk disk ending loc rest
      else if name = Trail.above then walk disk ending loc.dropLast rest
      else if maxName < name.length then .error .nameTooLong
      else match disk.get? (loc ++ [name]) with
        | none =>
          if ending.absent && rest.isEmpty then .ok (.arrived (loc ++ [name]))
          else .error .notFound
        | some (.link target) =>
          if rest.isEmpty && !ending.follow then .ok (.arrived (loc ++ [name]))
          else .ok (.redirected (if Path.isRooted target then [] else loc)
            (Text.splitOn Byte.slash target ++ rest))
        | some _ => walk disk ending (loc ++ [name]) rest
    | _ => .error .notDirectory

/-- Walks names from a location through at most `links` links. -/
def resolve (disk : Disk) (ending : Ending) :
    (links : Nat) → Location → List Text → Except Fault Location
  | links, loc, names =>
    match walk disk ending loc names with
    | .error fault => .error fault
    | .ok (.arrived found) => .ok found
    | .ok (.redirected loc names) =>
      match links with
      | 0 => .error .linkLoop
      | links + 1 => resolve disk ending links loc names

end Disk

/-- A disk seen from a current directory. -/
structure View where
  disk : Disk := {}
  /-- The rooted path of the current directory. -/
  current : Text := [Byte.slash]
deriving DecidableEq, Repr

namespace View

/-- The location a path leads to. -/
def locate (view : View) (ending : Disk.Ending) (path : Text) : Except Fault Location :=
  if path.contains 0 then .error .invalidPath
  else if path.isEmpty then .error .notFound
  else if Disk.maxPath ≤ path.length then .error .nameTooLong
  else
    let names := Text.splitOn Byte.slash path
    let names :=
      if Path.isRooted path then names else Text.splitOn Byte.slash view.current ++ names
    view.disk.resolve ending Disk.maxLinks [] names

/-- The entry a path refers to. -/
def entry (view : View) (ending : Disk.Ending) (path : Text) : Except Fault Entry := do
  match view.disk.get? (← view.locate ending path) with
  | some entry => .ok entry
  | none => .error .notFound

/-- The entry a path refers to, where a last link stands for itself. -/
def inspect (view : View) (path : Text) : Except Fault Entry :=
  view.entry { follow := false, absent := false } path

/-- The entry a path refers to with every link followed. -/
def follow (view : View) (path : Text) : Except Fault Entry :=
  view.entry { follow := true, absent := false } path

/-- Whether anything stands at a path, a dangling link included. -/
def isPresent (view : View) (path : Text) : Bool :=
  match view.inspect path with
  | .ok _ => true
  | .error _ => false

/-- The content of the file a path refers to. -/
def read (view : View) (path : Text) : Except Failure Text :=
  match view.follow path with
  | .ok (.file content) => .ok content
  | .ok _ => .error ⟨.reading, path, .isDirectory⟩
  | .error fault => .error ⟨.opening, path, fault⟩

end View

end DottedNames
