import DottedNames.CommandLine.Run
import DottedNames.Disk.Difference
import DottedNames.Server.Wire

/-!
# The program

The outermost layer: it looks at the parts of the file system that a command
line or a request can ask about, hands them over as a `Disk`, and writes out
what comes back. The language server looks again before every message and
reports the difference to the watchers.
-/

namespace DottedNames

namespace Console

/-- What is known of the file system so far. -/
abbrev Sighting := List (Location × Entry)

/-- The entry at a rooted path, a link standing for itself. The content of a
file is read only where it is wanted. -/
def look (wanted : Bool) (path : Text) : IO (Option Entry) := do
  match String.fromUTF8? ⟨path.toArray⟩ with
  | none => return none
  | some name =>
    let place := (← IO.currentDir) / name
    try
      match (← place.symlinkMetadata).type with
      | .dir => return some .directory
      | .file =>
        if wanted then return some (.file (← IO.FS.readBinFile place).toList)
        else return some (.file [])
      | .symlink => return some (.link (text (← IO.FS.realPath place).toString))
      | .other => return none
    catch _ => return none

/-- The names inside the directory at a rooted path. -/
def namesIn (path : Text) : IO (List Text) := do
  match String.fromUTF8? ⟨path.toArray⟩ with
  | none => return []
  | some name =>
    let place := (← IO.currentDir) / name
    try
      return (← place.readDir).toList.map fun e => text e.fileName
    catch _ => return []

/-- Looks at the entry of a rooted path and at what it needs to be reached,
through a bounded number of links. -/
def lookAlong : (links : Nat) → Sighting → Text → IO Sighting
  | links, seen, path => do
    let mut seen := seen
    for dir in (Trail.ofText path).chain.reverse do
      if (seen.lookup dir.names).isNone then
        match ← look (Path.isPython dir.toText) dir.toText with
        | some (.link target) =>
          seen := (dir.names, .link target) :: seen
          match links with
          | 0 => pure ()
          | links + 1 => seen ← lookAlong links seen target
        | some entry => seen := (dir.names, entry) :: seen
        | none => pure ()
    return seen

/-- Looks at a path and at the project markers above it. -/
def lookAround (seen : Sighting) (path : Text) : IO Sighting := do
  let mut seen ← lookAlong Disk.maxLinks seen path
  for dir in (Path.dirTrail path).chain do
    for marker in Project.markers do
      seen ← lookAlong Disk.maxLinks seen (Path.join dir.toText marker)
  return seen

/-- Looks at a tree down to a depth, as far as it holds project sources. -/
def lookBelow : (depth : Nat) → Sighting → Text → IO Sighting
  | 0, seen, _ => return seen
  | depth + 1, seen, path => do
    let mut seen := seen
    for name in ← namesIn path do
      let child := Path.join path name
      seen ← lookAlong Disk.maxLinks seen child
      if (seen.lookup (Trail.ofText child).names) == some .directory && !Survey.isSkipped name then
        seen ← lookBelow depth seen child
    return seen

/-- How deep a workspace is looked at. -/
def maxDepth : Nat := 100

/-- The rooted path of the current directory. -/
def currentPath : IO Text := do return text (← IO.currentDir).toString

/-- The file system as far as given paths and trees reach. -/
def viewOf (paths trees : List Text) : IO View := do
  let current ← currentPath
  let mut seen : Sighting := []
  for path in paths ++ trees do
    seen ← lookAround seen (Path.absolute current path)
  for tree in trees do
    seen ← lookBelow maxDepth seen (Path.absolute current tree)
  return { disk := { entries := seen }, current }

/-- The paths that a message is about. -/
def pathsOf (message : Server.Incoming) : List Text :=
  match message with
  | .reply => []
  | .request _ method params =>
    match Server.Request.read method params with
    | .error _ => []
    | .ok request =>
      match request.subject? with
      | none => []
      | some uri =>
        match Uri.toPath uri with
        | .ok path => [path]
        | .error _ => []

/-- Reads bytes after those that wait, up to and including an empty header
line, or to the end. -/
partial def readHeaderBlock (input : IO.FS.Stream) (waiting : Text) : IO Text := do
  let isComplete := (text "\r\n").isPrefixOf waiting ||
    (Uri.splitBefore (text "\r\n\r\n") waiting).isSome
  if isComplete then return waiting
  let byte ← input.read 1
  if byte.isEmpty then return waiting
  readHeaderBlock input (waiting ++ byte.toList)

/-- Reads a number of bytes, fewer when the input ends. -/
partial def readBytes (input : IO.FS.Stream) (count : Nat) (got : Text) : IO Text := do
  if count = 0 then return got
  let bytes ← input.read count.toUSize
  if bytes.isEmpty then return got
  readBytes input (count - bytes.size) (got ++ bytes.toList)

/-- Answers messages until the connection ends; some of the input may be
waiting already. -/
partial def serve (input output : IO.FS.Stream) (s : Server.State) (known : Disk)
    (waiting : Server.Inflow) : IO Unit := do
  let block ← readHeaderBlock input waiting.rest
  let some (length, waiting) := Server.readHead { waiting with rest := block } | return
  let body ← readBytes input (length - waiting.rest.length) waiting.rest
  let waiting := { waiting with rest := body }
  let some (message, needed) := Server.readBody (body.take length) | return
  let roots := (s.workspace.map fun ws => [ws.root]).getD []
  let view ← viewOf (pathsOf message) (roots ++ pathsOf message)
  let s := s.observe view (known.noticesBetween view.disk)
  let some (sent, s) := s.receive view message | return
  for value in sent do
    output.write ⟨(Server.writeFrame value.compact).toArray⟩
  output.flush
  serve input output s view.disk (waiting.takeIn length needed)

end Console

end DottedNames

open DottedNames in
/-- Runs the command line. -/
def main (arguments : List String) : IO UInt32 := do
  let words := arguments.map text
  let ending := CommandLine.run { view := ← Console.viewOf words [] } words
  match ending with
  | .serving =>
    Console.serve (← IO.getStdin) (← IO.getStdout) { version := CommandLine.version } {} { rest := [] }
    return 0
  | _ =>
    let finish := ending.finish
    (← IO.getStdout).write ⟨finish.output.toArray⟩
    (← IO.getStderr).write ⟨finish.errorOutput.toArray⟩
    return finish.exit.toUInt32
