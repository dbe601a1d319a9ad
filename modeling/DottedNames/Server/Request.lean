import DottedNames.Server.Argument
import DottedNames.Server.Capabilities

/-!
# Requests

What an editor can ask of the server. A request comes as the name of a method
and its parameters. `Request.read` tells the methods that the server has from
those it has not, checks the parameters against the shape that the method
wants, and takes from them what the server goes by.
-/

namespace DottedNames

namespace Server

/-- A request with what it needs of its parameters. -/
inductive Request where
  /-- Opens a session on a root directory, by path or by URI. -/
  | startSession (rootPath rootUri : Option Text)
  /-- Says that the session is set up, so that watching may begin. -/
  | sessionReady
  | shutdown
  | setTrace (value : Text)
  | didOpen (uri content : Text)
  /-- The document's whole new content, when the last change gives one. -/
  | didChange (uri : Text) (content : Option Text)
  | didClose (uri : Text)
  /-- The document's content, when the editor sends it along. -/
  | didSave (uri : Text) (content : Option Text)
  | hover (uri : Text) (line : UInt32)
  | codeAction (uri : Text) (line : UInt32)
  | executeCommand (command : Text) (arguments : List Argument)
deriving Repr

/-- Why a method with its parameters is no request. -/
inductive Rejection where
  | methodNotFound
  | invalidParams
deriving DecidableEq, Repr

/-- The methods of the server. -/
inductive Method where
  | startSession
  | sessionReady
  | shutdown
  | setTrace
  | didOpen
  | didChange
  | didClose
  | didSave
  | hover
  | codeAction
  | executeCommand
deriving DecidableEq, Repr

namespace Method

/-- The names of the methods. -/
def table : List (Text × Method) :=
  [(text "initialize", startSession), (text "initialized", sessionReady),
    (text "shutdown", shutdown), (text "$/setTrace", setTrace),
    (text "textDocument/didOpen", didOpen), (text "textDocument/didChange", didChange),
    (text "textDocument/didClose", didClose), (text "textDocument/didSave", didSave),
    (text "textDocument/hover", hover), (text "textDocument/codeAction", codeAction),
    (text "workspace/executeCommand", executeCommand)]

/-- The method with a name. -/
def ofName? (name : Text) : Option Method := table.lookup name

end Method

/-! ## Shapes -/

/-- A place in a document. -/
def positionShape : Shape := .record [("line", .unsigned), ("character", .unsigned)]

/-- A stretch of a document. -/
def rangeShape : Shape := .record [("start", positionShape), ("end", positionShape)]

/-- A reference to a document. -/
def documentShape : Shape := .record [("uri", .text)]

/-- A remark about a stretch of a document. -/
def diagnosticShape : Shape :=
  .record [("range", rangeShape), ("severity", .int32), ("code", .token),
    ("codeDescription", .record [("href", .text)]), ("source", .text), ("message", .text),
    ("tags", .listOf .int32),
    ("relatedInformation", .listOf (.record
      [("location", .record [("uri", .text), ("range", rangeShape)]), ("message", .text)])),
    ("data", .anything)]

/-- A change of a document's content. -/
def contentChangeShape : Shape :=
  .record [("range", rangeShape), ("rangeLength", .unsigned), ("text", .text)]

/-- The shape of a method's parameters. -/
def Method.shape : Method → Shape
  | startSession =>
    .record [("workDoneToken", .token), ("processId", .int32),
      ("clientInfo", .record [("name", .text), ("version", .text)]), ("locale", .text),
      ("rootPath", .text), ("rootUri", .text), ("initializationOptions", .anything),
      ("capabilities", capabilitiesShape), ("trace", .text),
      ("workspaceFolders", .listOf (.record [("uri", .text), ("name", .text)]))]
  | sessionReady => .record []
  | shutdown => .anything
  | setTrace => .record [("value", .text)]
  | didOpen =>
    .record [("textDocument", .record
      [("uri", .text), ("languageId", .text), ("version", .int32), ("text", .text)])]
  | didChange =>
    .record [("textDocument", .record [("uri", .text), ("version", .int32)]),
      ("contentChanges", .listOf .unread),
      ("contentChanges", .settled (.listOf contentChangeShape))]
  | didClose => .record [("textDocument", documentShape)]
  | didSave => .record [("textDocument", documentShape), ("text", .text)]
  | hover =>
    .record [("textDocument", documentShape), ("position", positionShape),
      ("workDoneToken", .token)]
  | codeAction =>
    .record [("workDoneToken", .token), ("partialResultToken", .token),
      ("textDocument", documentShape), ("range", rangeShape),
      ("context", .record [("diagnostics", .listOf diagnosticShape), ("only", .listOf .text)])]
  | executeCommand =>
    .record [("workDoneToken", .token), ("command", .text), ("arguments", .listOf .anything)]

/-! ## Reading -/

/-- Where the URI of the document stands in the parameters. -/
def uriPath : List String := ["textDocument", "uri"]

/-- The content that a change gives a document, none for a change of a part. -/
def wholeContent? (change : Json) : Option Text :=
  match (reach ["range"] change).getLast? with
  | some .null | none => some (textAt ["text"] change)
  | some _ => none

namespace Request

/-- The request that a method makes with parameters of the right shape. -/
def ofParams (method : Method) (params : Json) : Request :=
  let uri := textAt uriPath params
  match method with
  | .startSession =>
    startSession (optionalTextAt ["rootPath"] params) (optionalTextAt ["rootUri"] params)
  | .sessionReady => sessionReady
  | .shutdown => shutdown
  | .setTrace => setTrace (textAt ["value"] params)
  | .didOpen => didOpen uri (textAt ["textDocument", "text"] params)
  | .didChange =>
    didChange uri ((itemsAt ["contentChanges"] params).getLast?.bind wholeContent?)
  | .didClose => didClose uri
  | .didSave => didSave uri (optionalTextAt ["text"] params)
  | .hover => hover uri (unsignedAt ["position", "line"] params)
  | .codeAction => codeAction uri (unsignedAt ["range", "start", "line"] params)
  | .executeCommand =>
    executeCommand (textAt ["command"] params)
      ((itemsAt ["arguments"] params).map Argument.json)

/-- Reads a request. A shutdown needs no parameters and looks at none. -/
def read (method : Text) (params : Option Json) : Except Rejection Request :=
  match Method.ofName? method with
  | none => .error .methodNotFound
  | some .shutdown => .ok shutdown
  | some method =>
    match params with
    | none => .error .invalidParams
    | some params =>
      if method.shape.fits params then .ok (ofParams method params) else .error .invalidParams

/-- The URI, or path, of the document or directory that a request is about. -/
def subject? : Request → Option Text
  | startSession (some (b :: path)) _ => some (b :: path)
  | startSession _ uri => uri
  | didOpen uri _ | didChange uri _ | didClose uri | didSave uri _ | hover uri _
  | codeAction uri _ => some uri
  | executeCommand _ (uri :: _) => uri.text?
  | _ => none

end Request

end Server

end DottedNames
