import DottedNames.Disk.Change
import DottedNames.Workspace.Store
import DottedNames.Workspace.Survey

/-!
# Watching a workspace

A workspace is a root directory and the store of its documents. A watcher
keeps the closed documents current. It loads a tree, which scans the Python
files of a survey and puts a watch on each of its directories, and then it
reacts to events.

A watch sits on a location and remembers the path under which the location was
reached; events are named by that path. A location has one watch, and the
first name it was reached by stays. Once a watched directory is removed or
renamed, its watch and those below it are gone. What an event calls an entry of
a watched directory is up to the notifier: the one in use puts a slash between
the name of the watch and that of the entry.

An event with a removal, or a renaming away, drops closed documents at and
below its path. An event with a creation or a write scans the file there, or
loads the new directory. Events are handled in order, all of them on the disk
as it is after the changes they report.

## Main results

* `handle_of_removal` — how an event with a removal changes the workspace.
-/

namespace DottedNames

/-- A root directory and the documents below it. -/
structure Workspace where
  root : Text
  store : Store := {}
deriving DecidableEq, Repr

/-- A watched location and the path it was reached by. -/
structure Watch where
  loc : Location
  name : Text
deriving DecidableEq, Repr

/-- A path and what is reported about it. -/
structure Event where
  path : Text
  signals : Signals
deriving DecidableEq, Repr

/-- What a notifier calls an entry of a watched directory, by the name of the watch
and the name of the entry. -/
abbrev Naming := Text → Text → Text

/-- The name of the watch, a slash and the name of the entry. -/
def Naming.bySlash : Naming := fun watch name => watch ++ Byte.slash :: name

/-- The watches of a watcher. -/
abbrev Watches := List Watch

namespace Watches

/-- The watch on a location. -/
def on? (watches : Watches) (loc : Location) : Option Watch := watches.find? fun w => w.loc == loc

/-- Puts a watch on the directory that the normal form of a path leads to. -/
def add (watches : Watches) (view : View) (path : Text) : Watches :=
  match view.locate { follow := true, absent := false } (Path.clean path) with
  | .error _ => watches
  | .ok loc =>
    if (on? watches loc).isSome then watches else watches ++ [{ loc, name := Path.clean path }]

/-- The watches that are left when a tree is gone. -/
def dropTree (watches : Watches) (loc : Location) : Watches :=
  watches.filter fun w => !loc.isPrefixOf w.loc

/-- The event that a notice gives rise to: named by the watch on its parent,
or by its own watch when it is gone and the parent has none. -/
def eventOf (watches : Watches) (notice : Notice) (naming : Naming := .bySlash) : Option Event :=
  let gone := notice.signals.remove || notice.signals.rename
  match on? watches notice.loc.dropLast, notice.loc.getLast?, on? watches notice.loc with
  | some parent, some name, _ =>
    some { path := naming parent.name name, signals := notice.signals }
  | _, _, some self => if gone then some { path := self.name, signals := notice.signals } else none
  | _, _, none => none

/-- The events of notices in order, and the watches that are left. -/
def eventsOf (watches : Watches) (notices : List Notice) (naming : Naming := .bySlash) :
    List Event × Watches :=
  match notices with
  | [] => ([], watches)
  | notice :: notices =>
    let left :=
      if notice.signals.remove || notice.signals.rename then dropTree watches notice.loc
      else watches
    let (events, watches') := eventsOf left notices naming
    ((eventOf watches notice naming).toList ++ events, watches')

end Watches

namespace Workspace

/-- Takes a survey over: scans its files and watches its directories. -/
def absorb (ws : Workspace) (watches : Watches) (view : View) (survey : Survey) :
    Workspace × Watches :=
  ({ ws with store := survey.files.foldl (fun store path => store.scanned view path) ws.store },
    survey.directories.foldl (fun watches path => watches.add view path) watches)

/-- Loads the tree at a path. -/
def load (ws : Workspace) (watches : Watches) (view : View) (path : Text) :
    Except Failure (Workspace × Watches) :=
  (Survey.start view ws.root path).map (ws.absorb watches view)

/-- Loads the tree at a path if that is possible. -/
def loaded (ws : Workspace) (watches : Watches) (view : View) (path : Text) :
    Workspace × Watches :=
  match ws.load watches view path with
  | .ok next => next
  | .error _ => (ws, watches)

/-- Drops what is stored at and below a path, open documents apart. -/
def forget (ws : Workspace) (path : Text) : Workspace :=
  let store := if Path.isPython path then ws.store.remove path else ws.store
  { ws with store := store.removeBelow path }

/-- Reacts to an event. -/
def handle (ws : Workspace) (watches : Watches) (view : View) (event : Event) :
    Workspace × Watches :=
  if event.signals.remove || event.signals.rename then (ws.forget event.path, watches)
  else if !(event.signals.create || event.signals.write) then (ws, watches)
  else match view.follow event.path with
    | .error _ => (ws, watches)
    | .ok .directory =>
      if event.signals.create && !Survey.isSkipped (Path.base event.path) then
        ws.loaded watches view event.path
      else (ws, watches)
    | .ok _ =>
      if Path.isPython event.path then
        ({ ws with store := ws.store.scanned view event.path }, watches)
      else (ws, watches)

/-- Reacts to events in order. -/
def handleAll (ws : Workspace) (watches : Watches) (view : View) (events : List Event) :
    Workspace × Watches :=
  events.foldl (fun (ws, watches) event => ws.handle watches view event) (ws, watches)

/-- Reacts to what has happened to the disk. -/
def react (ws : Workspace) (watches : Watches) (view : View) (notices : List Notice)
    (naming : Naming := .bySlash) : Workspace × Watches :=
  let (events, watches) := watches.eventsOf notices naming
  ws.handleAll watches view events

/-- An event with a removal drops closed documents and nothing else. -/
theorem handle_of_removal (ws : Workspace) (watches : Watches) (view : View) {event : Event}
    (h : event.signals.remove || event.signals.rename) :
    ws.handle watches view event = (ws.forget event.path, watches) := by
  simp [handle, h]

end Workspace

/-- Why watching a workspace could not begin. -/
structure WatchFailure where
  root : Text
  failure : Failure
deriving DecidableEq, Repr

/-- The wording of the failure. -/
def WatchFailure.message (f : WatchFailure) : Text :=
  text "watch " ++ f.root ++ text ": " ++ f.failure.message

/-- A watcher: the watches it has, and whether it receives events. -/
structure Watcher where
  watches : Watches := []
  running : Bool := false
deriving DecidableEq, Repr

namespace Watcher

/-- Loads the workspace from its root and begins to receive events. -/
def start (watcher : Watcher) (ws : Workspace) (view : View) :
    Except WatchFailure (Workspace × Watcher) :=
  match ws.load watcher.watches view ws.root with
  | .ok (ws, watches) => .ok (ws, { watches, running := true })
  | .error failure => .error { root := ws.root, failure }

/-- Passes on what has happened to the disk, when events are received. -/
def observe (watcher : Watcher) (ws : Workspace) (view : View) (notices : List Notice) :
    Workspace × Watcher :=
  if watcher.running then
    let (ws, watches) := ws.react watcher.watches view notices
    (ws, { watcher with watches })
  else (ws, watcher)

end Watcher

end DottedNames
