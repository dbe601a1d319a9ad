import DottedNames.Workspace.Watcher

/-!
# Sessions

A session is a workspace in use: the disk as it is seen, the workspace itself
and a watcher. Its steps are the operations of the store, those of the watcher,
and changes of the disk. A change may leave any disk behind, and it comes with
any notices; they reach the workspace when the watcher is running.

An operation that fails is a step that leaves the session as it was.
-/

namespace DottedNames

/-- A workspace in use. -/
structure Session where
  view : View
  workspace : Workspace
  watcher : Watcher := {}
deriving Repr

namespace Session

/-- What can happen in a session. -/
inductive Step where
  | openDocument (path content : Text)
  | close (path : Text)
  | scan (path : Text)
  | remove (path : Text)
  | removeBelow (dir : Text)
  | get (path : Text)
  | lines (path : Text)
  | elementAt (path : Text) (line : Int64)
  | load (path : Text)
  | handle (event : Event)
  | start
  | stop
  /-- The disk becomes another one, and notices tell about it. -/
  | change (view : View) (notices : List Notice)
deriving Repr

/-- A session that has just begun. -/
def fresh (view : View) (root : Text) : Session := { view, workspace := { root } }

/-- The documents of the session. -/
def store (s : Session) : Store := s.workspace.store

/-- The session with other documents. -/
def withStore (s : Session) (store : Store) : Session :=
  { s with workspace := { s.workspace with store } }

/-- The session after the watcher has acted. -/
def withWatches (s : Session) (next : Workspace × Watches) : Session :=
  { s with workspace := next.1, watcher := { s.watcher with watches := next.2 } }

/-- The session after one step. -/
def step (s : Session) : Step → Session
  | .openDocument path content => s.withStore (s.store.openDocument path content)
  | .close path => s.withStore (s.store.close s.view path)
  | .scan path => s.withStore (s.store.scanned s.view path)
  | .remove path => s.withStore (s.store.remove path)
  | .removeBelow dir => s.withStore (s.store.removeBelow dir)
  | .get _ => s
  | .lines path => s.withStore (s.store.linesOf s.view path).2
  | .elementAt path line => s.withStore (s.store.elementAt s.view path line).2
  | .load path => s.withWatches (s.workspace.loaded s.watcher.watches s.view path)
  | .handle event => s.withWatches (s.workspace.handle s.watcher.watches s.view event)
  | .start =>
    match s.watcher.start s.workspace s.view with
    | .ok (workspace, watcher) => { s with workspace, watcher }
    | .error _ => s
  | .stop => { s with watcher := {} }
  | .change view notices =>
    let (workspace, watcher) := s.watcher.observe s.workspace view notices
    { view, workspace, watcher }

/-- The session after some steps in order. -/
def run (s : Session) (steps : List Step) : Session := steps.foldl step s

theorem run_cons (s : Session) (x : Step) (steps : List Step) :
    s.run (x :: steps) = (s.step x).run steps := rfl

@[simp] theorem store_withStore (s : Session) (store : Store) : (s.withStore store).store = store :=
  rfl

@[simp] theorem store_withWatches (s : Session) (next : Workspace × Watches) :
    (s.withWatches next).store = next.1.store := rfl

end Session

end DottedNames
