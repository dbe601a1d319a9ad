import DottedNames.Json.Basic
import DottedNames.Source.Element

/-!
# Answers

What the server sends back: the result of a request, and messages that the
editor shows to its user. Both have a form in the exchange format.
-/

namespace DottedNames

namespace Server

/-- The two commands of the server. -/
inductive Command where
  | copyQualifiedPath
  | copyImportStatement
deriving DecidableEq, Repr

namespace Command

/-- The name by which a command is called. -/
def name : Command → Text
  | copyQualifiedPath => text "pyqual.copyQualifiedPath"
  | copyImportStatement => text "pyqual.copyImportStatement"

/-- What an editor shows for a command. -/
def title : Command → Text
  | copyQualifiedPath => text "Copy qualified path"
  | copyImportStatement => text "Copy import statement"

/-- The commands in the order they are offered. -/
def all : List Command := [copyQualifiedPath, copyImportStatement]

/-- The command with a name. -/
def ofName? (name : Text) : Option Command := all.find? fun c => c.name == name

/-- What a command yields for an element. -/
def render : Command → Element → Text
  | copyQualifiedPath, e => e.qualifiedPath
  | copyImportStatement, e => e.importStatement

end Command

/-- A command offered for a line of a document. -/
structure Action where
  command : Command
  uri : Text
  line : UInt32
deriving DecidableEq, Repr

/-- The result of a request. -/
inductive Answer where
  | nothing
  /-- What the server can do, with its version. -/
  | capabilities (version : Text)
  /-- What is shown about the element under the pointer. -/
  | hover (markdown : Text)
  | actions (offered : List Action)
  /-- The text that a command has yielded. -/
  | copied (result : Text)
deriving DecidableEq, Repr

/-- How serious a message to the user is. -/
inductive Severity where
  | error
  | info
deriving DecidableEq, Repr

/-- A message to the user. -/
structure Message where
  severity : Severity
  content : Text
deriving DecidableEq, Repr

/-! ## In the exchange format -/

/-- An object with given members. -/
def record (members : List (String × Json)) : Json :=
  .object (members.map fun m => (text m.1, m.2))

/-- A fixed word as a value. -/
def word (s : String) : Json := .string (text s)

/-- The name of the program. -/
def programName : Text := text "pyqual"

/-- The result of opening a session. -/
def capabilitiesJson (version : Text) : Json :=
  record [
    ("capabilities", record [
      ("textDocumentSync", record [("openClose", .bool true), ("change", .ofNat 1),
        ("save", record [("includeText", .bool true)])]),
      ("hoverProvider", .bool true), ("codeActionProvider", .bool true),
      ("executeCommandProvider",
        record [("commands", .array (Command.all.map fun c => .string c.name))])]),
    ("serverInfo", record [("name", .string programName), ("version", .string version)])]

/-- An offered command in the exchange format. -/
def Action.toJson (a : Action) : Json :=
  record [("title", .string a.command.title), ("kind", word "source"),
    ("command", record [("title", .string a.command.title), ("command", .string a.command.name),
      ("arguments", .array [.string a.uri, .ofNat a.line.toNat])])]

/-- A result in the exchange format. -/
def Answer.toJson : Answer → Json
  | nothing => .null
  | capabilities version => capabilitiesJson version
  | hover markdown =>
    record [("contents", record [("kind", word "markdown"), ("value", .string markdown)])]
  | actions offered => .array (offered.map Action.toJson)
  | copied result => .string result

/-- The number of a severity. -/
def Severity.number : Severity → Nat
  | error => 1
  | info => 3

/-- The method by which a message is sent. -/
def Message.method : Text := text "window/showMessage"

/-- The parameters with which a message is sent. -/
def Message.params (m : Message) : Json :=
  record [("type", .ofNat m.severity.number), ("message", .string m.content)]

end Server

end DottedNames
