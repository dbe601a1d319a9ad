import DottedNames.Server.Answer
import DottedNames.Server.Request
import DottedNames.Workspace.Watcher

/-!
# The language server

The server holds one workspace, which the request that opens a session makes
anew, and keeps a record of the watcher it started last. Before a session is
open, and after a shutdown, every request but the opening one is refused.

A watcher belongs to the workspace it was started on. A second one on the same
workspace takes the first one's place in the record only: the first goes on
receiving events. A new workspace leaves all earlier watchers behind with the
store they feed.

A document whose URI cannot be read is no error: notifications about it are
dropped and queries find nothing. Only a command with arguments it cannot
read fails.
-/

namespace DottedNames

namespace Server

/-- What the server remembers of the watcher it started last. -/
inductive Recorded where
  /-- No watcher was started, or it was stopped. -/
  | none
  /-- The watcher feeds the store of an earlier workspace. -/
  | former
  /-- The watcher feeds the store of the present workspace. -/
  | present (watches : Watches)
deriving DecidableEq, Repr

/-- The state of a server. -/
structure State where
  version : Text
  /-- Whether messages reach the editor. -/
  canNotify : Bool := true
  /-- Whether a session is open. -/
  initialized : Bool := false
  trace : Text := text "off"
  workspace : Option Workspace := none
  recorded : Recorded := .none
  /-- Watchers of the present workspace that are no longer on record. -/
  abandoned : List Watches := []
deriving DecidableEq, Repr

/-- Why a request is refused, or how the server's own error reads. -/
inductive Refusal where
  | methodNotFound
  | invalidParams
  | notInitialized
  | unknownCommand (name : Text)
  | badArguments (command : Command) (fault : ArgumentFault)
deriving DecidableEq, Repr

/-- The wording of a refusal; a request that could not be read has none. -/
def Refusal.message : Refusal → Text
  | methodNotFound | invalidParams => []
  | notInitialized => text "server not initialized"
  | unknownCommand name => text "unknown command: " ++ name
  | badArguments command fault => command.name ++ text ": " ++ fault.message

/-- What a request comes to: its answer and the messages sent on the way. -/
structure Outcome where
  answer : Except Refusal Answer
  messages : List Message := []
deriving Repr

namespace State

/-- Whether a watcher is on record. -/
def isWatching (s : State) : Bool :=
  match s.recorded with
  | .none => false
  | _ => true

/-- Changes the store of the workspace. -/
def updateStore (s : State) (f : Store → Store) : State :=
  { s with workspace := s.workspace.map fun ws => { ws with store := f ws.store } }

/-- Sends a message, where messages reach the editor. -/
def sends (s : State) (severity : Severity) (content : Text) : List Message :=
  if s.canNotify then [{ severity, content }] else []

/-- The root directory that a session is opened on. A path goes before a URI,
and a URI that cannot be read stands for the current directory. -/
def sessionRoot (rootPath rootUri : Option Text) : Text :=
  match rootPath.getD [], rootUri.getD [] with
  | [], [] => Trail.here
  | [], uri =>
    match Uri.toPath uri with
    | .ok path => path
    | .error _ => Trail.here
  | path, _ => path

/-- Opens a session with an empty store. -/
def startSession (s : State) (view : View) (rootPath rootUri : Option Text) : State :=
  { s with
    initialized := true
    workspace := some { root := Path.absolute view.current (sessionRoot rootPath rootUri) }
    recorded := match s.recorded with
      | .none => .none
      | _ => .former
    abandoned := [] }

/-- Starts a watcher on the workspace, if that is possible. -/
def beginWatching (s : State) (view : View) : State :=
  match s.workspace with
  | none => s
  | some ws =>
    match Watcher.start {} ws view with
    | .error _ => s
    | .ok (ws, watcher) =>
      { s with
        workspace := some ws
        recorded := .present watcher.watches
        abandoned := match s.recorded with
          | .present watches => s.abandoned ++ [watches]
          | _ => s.abandoned }

/-- Records the editor's copy of a document. -/
def openDocument (s : State) (uri content : Text) : State :=
  match Uri.toPath uri with
  | .ok path => s.updateStore (Store.openDocument · path content)
  | .error _ => s

/-- Hands a document back to the disk. -/
def closeDocument (s : State) (view : View) (uri : Text) : State :=
  match Uri.toPath uri with
  | .ok path => s.updateStore (Store.close · view path)
  | .error _ => s

/-- The path of a Python document. -/
def pythonPath? (uri : Text) : Option Text :=
  match Uri.toPath uri with
  | .ok path => if Path.isPython path then some path else none
  | .error _ => none

/-- The element at a line of a document, and the state afterwards. -/
def elementAt (s : State) (view : View) (path : Text) (line : Int64) : Option Element × State :=
  match s.workspace with
  | none => (none, s)
  | some ws =>
    let (element, store) := ws.store.elementAt view path line
    (element, { s with workspace := some { ws with store } })

/-- What is shown about an element. -/
def hoverMarkdown (e : Element) : Text :=
  text "`" ++ e.qualifiedPath ++ text "`\n\n```python\n" ++ e.importStatement ++ text "\n```"

/-- Answers what is under the pointer. -/
def hover (s : State) (view : View) (uri : Text) (line : UInt32) : Answer × State :=
  match pythonPath? uri with
  | none => (.nothing, s)
  | some path =>
    match s.elementAt view path (Int64.ofNat line.toNat) with
    | (none, s) => (.nothing, s)
    | (some e, s) => (if e.toNames.isEmpty then .nothing else .hover (hoverMarkdown e), s)

/-- Answers which commands are offered at a line. -/
def codeAction (uri : Text) (line : UInt32) : Answer :=
  match pythonPath? uri with
  | none => .nothing
  | some _ => .actions (Command.all.map fun command => { command, uri, line })

/-- Runs a command on the element at a line of a document. -/
def runCommand (s : State) (view : View) (command : Command) (path : Text) (line : Int64) :
    Outcome × State :=
  if !Path.isPython path then
    ({ answer := .ok .nothing, messages := s.sends .info (text "Only works on Python files.") }, s)
  else match s.elementAt view path line with
    | (none, next) =>
      ({ answer := .ok .nothing, messages := s.sends .error (text "Cannot read " ++ path) }, next)
    | (some e, next) =>
      let result := command.render e
      ({ answer := .ok (.copied result), messages := s.sends .info (text "Copied: " ++ result) },
        next)

/-- Runs a command by name. -/
def executeCommand (s : State) (view : View) (name : Text) (arguments : List Argument) :
    Outcome × State :=
  match Command.ofName? name with
  | none => ({ answer := .error (.unknownCommand name) }, s)
  | some command =>
    match readArguments arguments with
    | .error fault => ({ answer := .error (.badArguments command fault) }, s)
    | .ok (path, line) => s.runCommand view command path line

/-- The trace value as it is kept. -/
def traceValue (value : Text) : Text :=
  if value = text "messages" then text "message" else value

/-- Answers a request, once a session is open. -/
def serve (s : State) (view : View) : Request → Outcome × State
  | .startSession rootPath rootUri =>
    ({ answer := .ok (.capabilities s.version) }, s.startSession view rootPath rootUri)
  | .sessionReady => ({ answer := .ok .nothing }, s.beginWatching view)
  | .shutdown => ({ answer := .ok .nothing }, { s with initialized := false, recorded := .none })
  | .setTrace value => ({ answer := .ok .nothing }, { s with trace := traceValue value })
  | .didOpen uri content => ({ answer := .ok .nothing }, s.openDocument uri content)
  | .didChange uri (some content) => ({ answer := .ok .nothing }, s.openDocument uri content)
  | .didChange _ none => ({ answer := .ok .nothing }, s)
  | .didClose uri => ({ answer := .ok .nothing }, s.closeDocument view uri)
  | .didSave uri (some content) => ({ answer := .ok .nothing }, s.openDocument uri content)
  | .didSave _ none => ({ answer := .ok .nothing }, s)
  | .hover uri line =>
    let (answer, next) := s.hover view uri line
    ({ answer := .ok answer }, next)
  | .codeAction uri line => ({ answer := .ok (codeAction uri line) }, s)
  | .executeCommand name arguments => s.executeCommand view name arguments

/-- Handles a method with its parameters. Without an open session only the
method that opens one is looked at. -/
def handle (s : State) (view : View) (method : Text) (params : Option Json) : Outcome × State :=
  if !s.initialized && Method.ofName? method != some .startSession then
    ({ answer := .error .notInitialized }, s)
  else match Request.read method params with
    | .error .methodNotFound => ({ answer := .error .methodNotFound }, s)
    | .error .invalidParams => ({ answer := .error .invalidParams }, s)
    | .ok request => s.serve view request

/-- Lets every watcher of the present workspace react to what has happened to
the disk. -/
def observe (s : State) (view : View) (notices : List Notice) (naming : Naming := .bySlash) :
    State :=
  match s.workspace with
  | none => s
  | some ws =>
    let step := fun (acc : Workspace × List Watches) (watches : Watches) =>
      let (ws, watches) := acc.1.react watches view notices naming
      (ws, acc.2 ++ [watches])
    let (ws, abandoned) := s.abandoned.foldl step (ws, [])
    match s.recorded with
    | .present watches =>
      let (ws, watches) := ws.react watches view notices naming
      { s with workspace := some ws, recorded := .present watches, abandoned }
    | _ => { s with workspace := some ws, abandoned }

end State

end Server

end DottedNames
