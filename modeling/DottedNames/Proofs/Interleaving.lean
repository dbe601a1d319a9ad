import DottedNames.Proofs.Reaction
import Mathlib.Algebra.GroupWithZero.Nat

/-!
# Requests and the watcher at the same time

The store is guarded by a lock, but a scan is not one locked step: the disk is
read first, without the lock, and what was read is put into the store later.
Closing a document drops it in one locked step and scans afterwards. So a
request and the watcher can come between each other's steps, and the disk can
change between any two of them.

Here the store's operations are cut into their atomic steps. A party is the list
of steps it has still to make. One party answers requests, one after the other,
and one handles the events that wait in a queue. `Move` lists what can come
next: a step of either party, a new request, the next event taken from the
queue, and a file written or removed, which puts its events into the queue.

A party that nobody comes between does what the operations of the store and of
the workspace do as a whole.

## Main results

* `advanceBy_eq_perform` — a party that nobody comes between ends, with all its
  steps made.
* `perform_close`, `perform_lines`, `perform_event` — all steps together.
-/

namespace DottedNames

namespace Concurrent

/-- An atomic step of a party. -/
inductive Op where
  /-- Looks a document up, and scans it if it is not stored. -/
  | lookUp (path : Text)
  /-- Records the editor's copy. -/
  | put (path content : Text)
  /-- Drops a document, open or not. -/
  | drop (path : Text)
  /-- The first half of a scan: reads the disk. -/
  | read (path : Text)
  /-- The second half of a scan: takes over what was read, unless the editor has
  the document open. -/
  | commit (path content : Text)
  | remove (path : Text)
  | removeBelow (dir : Text)
  /-- Looks at what an event is about, and scans it if it is a Python file. -/
  | inspect (path : Text)
deriving DecidableEq, Repr

/-- One step: the store afterwards, and the steps that have become due. -/
def Op.exec (view : View) (store : Store) : Op → Store × List Op
  | .lookUp path => (store, if (store.get? path).isSome then [] else [.read path])
  | .put path content => (store.openDocument path content, [])
  | .drop path => (store.dropWhere fun d => d.path == path, [])
  | .read path =>
    match view.read path with
    | .ok content => (store, [.commit path content])
    | .error _ => (store, [])
  | .commit path content => (store.commit path content, [])
  | .remove path => (store.remove path, [])
  | .removeBelow dir => (store.removeBelow dir, [])
  | .inspect path =>
    match view.follow path with
    | .error _ | .ok .directory => (store, [])
    | .ok _ => (store, if Path.isPython path then [.read path] else [])

/-- A request to the store. -/
inductive Call where
  | open (path content : Text)
  | close (path : Text)
  | lines (path : Text)
  | elementAt (path : Text) (line : Int64)
deriving DecidableEq, Repr

/-- The steps of a request. -/
def Call.program : Call → List Op
  | .open path content => [.put path content]
  | .close path => [.drop path, .read path]
  | .lines path | .elementAt path _ => [.lookUp path]

/-- Whether an event reports that something is gone. -/
def gone (e : Event) : Bool := e.signals.remove || e.signals.rename

/-- The steps of handling an event about a file. -/
def program (e : Event) : List Op :=
  if gone e then (if Path.isPython e.path then [.remove e.path] else []) ++ [.removeBelow e.path]
  else if e.signals.create || e.signals.write then [.inspect e.path]
  else []

/-! ## Steps in a row -/

/-- What a step comes to with the steps that it makes due, when nobody comes
between. -/
def Op.whole (view : View) (store : Store) : Op → Store
  | .lookUp path => (store.linesOf view path).2
  | .put path content => store.openDocument path content
  | .drop path => store.dropWhere fun d => d.path == path
  | .read path => store.scanned view path
  | .commit path content => store.commit path content
  | .remove path => store.remove path
  | .removeBelow dir => store.removeBelow dir
  | .inspect path =>
    match view.follow path with
    | .error _ | .ok .directory => store
    | .ok _ => if Path.isPython path then store.scanned view path else store

/-- What steps in a row come to. -/
def perform (view : View) (store : Store) (ops : List Op) : Store :=
  ops.foldl (Op.whole view) store

/-- How many steps may be left to make. -/
def Op.weight : Op → Nat
  | .lookUp _ | .inspect _ => 3
  | .read _ => 2
  | _ => 1

/-- Making one step leaves the rest of the work to do. -/
theorem perform_exec (view : View) (store : Store) (op : Op) (ops : List Op) :
    perform view (op.exec view store).1 ((op.exec view store).2 ++ ops) =
      perform view store (op :: ops) := by
  unfold perform
  rw [List.foldl_append, List.foldl_cons]
  congr 1
  cases op with
  | lookUp path =>
      simp only [Op.exec, Op.whole, Store.linesOf]
      cases store.get? path <;> simp [Op.whole]
  | read path =>
      simp only [Op.exec, Op.whole]
      cases hRead : view.read path with
      | ok content => simp [Op.whole, Store.scanned_of_read hRead]
      | error failure => simp [Store.scanned_of_error hRead]
  | inspect path =>
      simp only [Op.exec, Op.whole]
      split
      · rfl
      · rfl
      · split <;> rfl
  | _ => rfl

/-- And there is less of it. -/
theorem exec_weight (view : View) (store : Store) (op : Op) :
    (((op.exec view store).2).map Op.weight).sum < op.weight := by
  cases op with
  | lookUp path =>
      simp only [Op.exec]
      split <;> simp [Op.weight]
  | read path =>
      simp only [Op.exec]
      split <;> simp [Op.weight]
  | inspect path =>
      simp only [Op.exec]
      split
      · simp [Op.weight]
      · simp [Op.weight]
      · split <;> simp [Op.weight]
  | _ => simp [Op.exec, Op.weight]

/-- A party makes its next step, if it has one. -/
def advance (view : View) (store : Store) : List Op → Store × List Op
  | [] => (store, [])
  | op :: ops => ((op.exec view store).1, (op.exec view store).2 ++ ops)

/-- A party makes a number of steps and nobody comes between. -/
def advanceBy (view : View) : Nat → Store × List Op → Store × List Op
  | 0, party => party
  | n + 1, party => advanceBy view n (advance view party.1 party.2)

/-- A party that nobody comes between performs its steps and ends. -/
theorem advanceBy_eq_perform (view : View) {n : Nat} {store : Store} {ops : List Op}
    (h : (ops.map Op.weight).sum ≤ n) :
    advanceBy view n (store, ops) = (perform view store ops, []) := by
  induction n generalizing store ops with
  | zero =>
      cases ops with
      | nil => rfl
      | cons op ops =>
          have hPositive : 0 < op.weight := Nat.lt_of_le_of_lt (Nat.zero_le _)
            (exec_weight view store op)
          rw [List.map_cons, List.sum_cons] at h
          omega
  | succ n ih =>
      cases ops with
      | nil => exact ih (by simp)
      | cons op ops =>
          have hLess := exec_weight view store op
          rw [List.map_cons, List.sum_cons] at h
          have hRest : (((op.exec view store).2 ++ ops).map Op.weight).sum ≤ n := by
            rw [List.map_append, List.sum_append]
            omega
          rw [← perform_exec]
          exact ih hRest

theorem perform_close (view : View) (store : Store) (path : Text) :
    perform view store (Call.close path).program = store.close view path := rfl

theorem perform_lines (view : View) (store : Store) (path : Text) :
    perform view store (Call.lines path).program = (store.linesOf view path).2 := rfl

/-- The steps of an event about anything but a directory are the watcher's
reaction to it. -/
theorem perform_event (view : View) (ws : Workspace) (watches : Watches) (e : Event)
    (hFile : view.follow e.path ≠ .ok .directory) :
    perform view ws.store (program e) = (ws.handle watches view e).1.store := by
  unfold program Workspace.handle gone
  split
  · unfold Workspace.forget
    split <;> rfl
  · split
    · next hNews =>
        rw [hNews]
        simp only [perform, List.foldl_cons, List.foldl_nil, Op.whole]
        cases hFollow : view.follow e.path with
        | error fault => rfl
        | ok entry =>
            cases entry with
            | directory => exact absurd hFollow hFile
            | file content => simp only; split <;> rfl
            | link target => simp only; split <;> rfl
    · next hQuiet =>
        simp [hQuiet, perform]

/-! ## The two parties -/

/-- The disk, the store, the watches, the events that wait, and what each party
has still to do. -/
structure State where
  view : View
  store : Store := {}
  watches : Watches := []
  queue : List Event := []
  request : List Op := []
  watcher : List Op := []
deriving DecidableEq, Repr

/-- What can come next. -/
inductive Move where
  /-- A request comes in; it waits for none, since there is one at a time. -/
  | begin (call : Call)
  /-- The request makes its next step. -/
  | requestStep
  /-- The watcher takes the next event. -/
  | take
  /-- The watcher makes its next step. -/
  | watcherStep
  /-- A file is written. -/
  | write (path content : Text)
  /-- A file is removed. -/
  | remove (path : Text)
deriving DecidableEq, Repr

namespace State

/-- The disk has changed, and what the watches hear waits in the queue. -/
def changed (s : State) (c : Changed) : State :=
  { s with
    view := { s.view with disk := c.disk }
    watches := (s.watches.eventsOf c.notices).2
    queue := s.queue ++ (s.watches.eventsOf c.notices).1 }

/-- The state after one move; a move that is not possible changes nothing. -/
def step (s : State) : Move → State
  | .begin call => if s.request.isEmpty then { s with request := call.program } else s
  | .requestStep =>
    let (store, request) := advance s.view s.store s.request
    { s with store, request }
  | .take =>
    match s.watcher, s.queue with
    | [], e :: es => { s with queue := es, watcher := program e }
    | _, _ => s
  | .watcherStep =>
    let (store, watcher) := advance s.view s.store s.watcher
    { s with store, watcher }
  | .write path content =>
    s.changed (Disk.orStay { disk := s.view.disk } (Disk.writeFile · path content))
  | .remove path => s.changed (Disk.orStay { disk := s.view.disk } (Disk.removeTree · path))

/-- The state after some moves in order. -/
def run (s : State) (moves : List Move) : State := moves.foldl step s

theorem run_append (s : State) (moves more : List Move) :
    s.run (moves ++ more) = (s.run moves).run more := by
  simp [run]

/-- Nothing is in flight: no request, no event waiting or being handled. -/
structure Idle (s : State) : Prop where
  request : s.request = []
  queue : s.queue = []
  watcher : s.watcher = []

/-- Under the path a closed document is stored that is not what the file there
holds; nor may there be no file. -/
def Stale (s : State) (path : Text) : Prop :=
  ∃ doc, s.store.get? path = some doc ∧ doc.isOpen = false ∧
    ∀ content, s.view.read path = .ok content → doc.lines ≠ Text.lines content

/-- A stored document is not stale when it is open or the disk's copy. -/
theorem stale_iff (s : State) (path : Text) :
    s.Stale path ↔
      ∃ doc, s.store.get? path = some doc ∧ doc.isOpen = false ∧ s.view.copy path ≠ some doc := by
  refine exists_congr fun doc => and_congr_right fun hHeld => and_congr_right fun hClosed => ?_
  have hPath := Store.path_of_get? hHeld
  unfold View.copy
  cases hRead : s.view.read path with
  | error failure => simp
  | ok content =>
      have hSame : Held.ofFile path content = doc ↔ doc.lines = Text.lines content := by
        cases doc
        simp_all [Held.ofFile, eq_comm]
      simp [hSame]

end State

end Concurrent

end DottedNames
