import DottedNames.Disk.Basic

/-!
# Changes of a disk

The ways a disk changes under a running program: files are written,
directories and links made, trees removed and renamed. The directories that a
change needs above it are made first. A change that is not possible, such as a
file in place of a directory, leaves the disk as it is, save for directories
already made on the way.

With the new disk a change yields notices, in order: at which locations
something was created, written, removed, or renamed away.
-/

namespace DottedNames

/-- What a notice or an event reports; any of these may come together. -/
structure Signals where
  create : Bool := false
  write : Bool := false
  remove : Bool := false
  rename : Bool := false
  /-- A change of permissions, which nothing here reacts to. -/
  permission : Bool := false
deriving DecidableEq, Repr

/-- Signals about the entry at a location. -/
structure Notice where
  loc : Location
  signals : Signals
deriving DecidableEq, Repr

/-- One change of a disk. Paths are rooted. -/
inductive Change where
  | write (path content : Text)
  | makeDirectory (path : Text)
  | makeLink (path target : Text)
  | remove (path : Text)
  | rename (path target : Text)
deriving DecidableEq, Repr

/-- A disk and the notices of what has happened to it. -/
structure Changed where
  disk : Disk
  notices : List Notice := []
deriving DecidableEq, Repr

namespace Changed

/-- Puts an entry at a location and notes that it is new. -/
def create (c : Changed) (loc : Location) (entry : Entry) : Changed :=
  { disk := c.disk.insert loc entry
    notices := c.notices ++ [{ loc, signals := { create := true } }] }

end Changed

namespace Disk

/-- The location that a rooted path leads to on a disk. -/
def locate (disk : Disk) (ending : Ending) (path : Text) : Except Fault Location :=
  View.locate { disk } ending path

/-- Makes a directory at a path whose parent is there, unless there is one. -/
def makeDirectory (c : Changed) (path : Text) : Except Fault Changed :=
  match c.disk.locate { follow := true, absent := false } path with
  | .ok loc => if c.disk.get? loc = some .directory then .ok c else .error .notDirectory
  | .error .notFound => do
    let loc ← c.disk.locate { follow := false, absent := true } path
    match c.disk.get? loc with
    | none => return c.create loc .directory
    | some _ => throw .notDirectory
  | .error fault => .error fault

/-- Makes a directory and the missing ones above it. -/
def makeDirectories (c : Changed) (path : Text) : Except Fault Changed :=
  (Trail.ofText path).chain.reverse.foldlM (fun c dir => makeDirectory c dir.toText) c

/-- The locations of a tree, deepest first. -/
def tree (disk : Disk) (loc : Location) : List Location :=
  ((disk.entries.map Prod.fst).filter loc.isPrefixOf).mergeSort
    fun a b => decide (b.length ≤ a.length)

/-- The disk with a tree moved from one location to another. -/
def moveTree (disk : Disk) (source target : Location) : Disk :=
  let moved := (disk.eraseTree target).entries
  { entries := moved.map fun (loc, entry) =>
      if source.isPrefixOf loc then (target ++ loc.drop source.length, entry) else (loc, entry) }

/-- Writes a file whose directory is there; a link leads to what is written. -/
def writeFile (c : Changed) (path content : Text) : Except Fault Changed := do
  let loc ← c.disk.locate { follow := true, absent := true } path
  let signals : Signals := { write := true }
  match c.disk.get? loc with
  | none =>
    let c := c.create loc (.file content)
    return { c with notices := c.notices ++ [{ loc, signals }] }
  | some (.file _) =>
    return { disk := c.disk.insert loc (.file content), notices := c.notices ++ [{ loc, signals }] }
  | some _ => throw .isDirectory

/-- Makes a symbolic link where nothing stands. -/
def makeLink (c : Changed) (path target : Text) : Except Fault Changed := do
  if target.isEmpty then throw .notFound
  let loc ← c.disk.locate { follow := false, absent := true } path
  match c.disk.get? loc with
  | none => return c.create loc (.link target)
  | some _ => throw .notDirectory

/-- Removes whatever stands at a path, with everything below it. -/
def removeTree (c : Changed) (path : Text) : Except Fault Changed := do
  let loc ← c.disk.locate { follow := false, absent := false } path
  if loc.isEmpty then throw .invalidPath
  return { disk := c.disk.eraseTree loc
           notices := c.notices ++ (c.disk.tree loc).map fun loc =>
             { loc, signals := { remove := true } } }

/-- Renames what stands at a path. A directory is never replaced, and it
replaces nothing. -/
def renameTree (c : Changed) (path target : Text) : Except Fault Changed := do
  let source ← c.disk.locate { follow := false, absent := false } path
  let goal ← c.disk.locate { follow := false, absent := true } target
  if source.isEmpty || goal.isEmpty || (source.isPrefixOf goal && source != goal) then
    throw .invalidPath
  if source = goal ∧ c.disk.get? goal ≠ some .directory then return c
  match c.disk.get? source, c.disk.get? goal with
  | _, some .directory => throw .isDirectory
  | some .directory, some _ => throw .notDirectory
  | _, _ =>
    return { disk := c.disk.moveTree source goal
             notices := c.notices ++
               [{ loc := source, signals := { rename := true } },
                { loc := goal, signals := { create := true } }] }

/-- Goes on with a step, or stays when the step is not possible. -/
def orStay (c : Changed) (step : Changed → Except Fault Changed) : Changed :=
  match step c with
  | .ok next => next
  | .error _ => c

/-- Applies one change. -/
def applyChange (c : Changed) : Change → Changed
  | .write path content =>
    let c := orStay c (makeDirectories · (Path.dir path))
    orStay c (writeFile · path content)
  | .makeDirectory path => orStay c (makeDirectories · path)
  | .makeLink path target =>
    let c := orStay c (makeDirectories · (Path.dir path))
    orStay c (makeLink · path target)
  | .remove path => orStay c (removeTree · path)
  | .rename path target =>
    let c := orStay c (makeDirectories · (Path.dir path))
    let c := orStay c (makeDirectories · (Path.dir target))
    orStay c (renameTree · path target)

/-- Applies changes in order. -/
def apply (disk : Disk) (changes : List Change) : Changed :=
  changes.foldl applyChange { disk }

end Disk

end DottedNames
