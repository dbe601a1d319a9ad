import DottedNames.Json.Normal
import DottedNames.Json.Reader
import DottedNames.Server.Frame
import DottedNames.Server.Shape
import DottedNames.Server.State

/-!
# Messages on the wire

A message is one value of the exchange format at the beginning of the body of
a frame. It is a request when it names a method, and an answer to the server
when it has a result or an error; it has to be one of the two. A request is
read in normal form, so that of a repeated member the last one counts. A
request without an identifier wants no reply. Whatever does not read like this
ends the connection.
-/

namespace DottedNames

namespace Server

/-! ## Incoming messages -/

/-- The identifier of a request. -/
inductive Id where
  | number (value : UInt64)
  | text (value : Text)
deriving DecidableEq, Repr

/-- An identifier in the exchange format. -/
def Id.toJson : Id → Json
  | number n => .ofNat n.toNat
  | text s => .string s

/-- A message that the server receives. -/
inductive Incoming where
  /-- A request; without an identifier it wants no reply. -/
  | request (id : Option Id) (method : Text) (params : Option Json)
  /-- An answer to something the server never asked. -/
  | reply
deriving Repr

/-- Whether the last value of a member, its case aside, is there and not
`null`. -/
def isGiven (name : String) (members : List (Text × Json)) : Bool :=
  match (valuesOf name members).getLast? with
  | none | some .null => false
  | some _ => true

/-- The identifier that a value is. A negative number is taken modulo 2⁶⁴. -/
def idOf? : Json → Option Id
  | .string s => some (.text s)
  | .number literal =>
    match Json.integer? literal with
    | some n =>
      if Argument.fits64 n then some (.number (Int64.ofInt n).toUInt64) else none
    | none => none
  | _ => none

/-- Whether the identifier of an answer is one the server could have used. -/
def isReplyId : Json → Bool
  | .null | .string _ => true
  | value => isNaturalUpTo (Numeral.word64 - 1) value

/-- The shape of an error in an answer. -/
def errorShape : Shape := .record [("code", .int64), ("message", .text), ("data", .unread)]

/-- Whether the members that tell requests from answers can be read at all. -/
def isReadable (members : List (Text × Json)) : Bool :=
  (valuesOf "method" members).all Shape.text.fits &&
    ["id", "result", "error"].all fun name => (valuesOf name members).all hasValue

/-- The request with given members in normal form. -/
def requestOf? (members : List (Text × Json)) : Option Incoming :=
  match Json.find? (text "method") members with
  | some (.string method) =>
    let params := Json.find? (text "params") members
    match Json.find? (text "id") members with
    | none | some .null => some (.request none method params)
    | some id => (idOf? id).map fun id => .request (some id) method params
  | _ => none

/-- The message that a body is. -/
def Incoming.ofJson? (body : Json) : Option Incoming :=
  match body with
  | .object members =>
    let isRequest := isGiven "method" members
    let isReply := !(valuesOf "result" members).isEmpty || isGiven "error" members
    if isRequest == isReply || !isReadable members then none
    else if isReply then
      if (valuesOf "id" members).all isReplyId && (valuesOf "error" members).all errorShape.fits
      then some .reply
      else none
    else requestOf? (Json.normalMembers members [])
  | _ => none

/-! ## Outgoing messages -/

/-- The first member of every message. -/
def versionMember : String × Json := ("jsonrpc", word "2.0")

/-- A message to the user, as it is sent. -/
def Message.toJson (m : Message) : Json :=
  record [versionMember, ("method", .string Message.method), ("params", m.params)]

/-- The error that tells why a request is refused. -/
def Refusal.toJson (method : Text) : Refusal → Json
  | methodNotFound =>
    record [("code", .ofInt (-32601)),
      ("message", .string (text "method not supported: " ++ method))]
  | invalidParams => record [("code", .ofInt (-32602))]
  | refusal => record [("code", .ofInt (-32600)), ("message", .string refusal.message)]

/-- The reply to a request. -/
def replyJson (id : Id) (method : Text) (answer : Except Refusal Answer) : Json :=
  record [versionMember, ("id", id.toJson),
    match answer with
    | .ok answer => ("result", answer.toJson)
    | .error refusal => ("error", refusal.toJson method)]

/-! ## A connection -/

/-- The method that ends the connection. -/
def exitMethod : Text := text "exit"

/-- Answers one message: what is sent, messages to the user before the reply,
and the state afterwards; nothing when the connection ends. -/
def State.receive (s : State) (view : View) : Incoming → Option (List Json × State)
  | .reply => some ([], s)
  | .request id method params =>
    if method = exitMethod then none
    else
      let (outcome, next) := s.handle view method params
      let reply := match id with
        | some id => [replyJson id method outcome.answer]
        | none => []
      some (outcome.messages.map Message.toJson ++ reply, next)

/-- Reads the message that a body begins with. The second part of the result
is the length of that beginning. -/
def readBody (body : Text) : Option (Incoming × Nat) := do
  let (value, rest) ← Json.readFirst body
  let message ← Incoming.ofJson? value
  return (message, body.length - rest.length)

/-- Answers the messages of an input, on a disk that does not change, until
the connection ends. Every message uses one unit of fuel. -/
def converse (view : View) : (fuel : Nat) → State → Inflow → List Json
  | 0, _, _ => []
  | fuel + 1, s, input =>
    match readHead input with
    | none => []
    | some (length, input) =>
      match readBody (input.rest.take length) with
      | none => []
      | some (message, needed) =>
        match s.receive view message with
        | none => []
        | some (sent, s) => sent ++ converse view fuel s (input.takeIn length needed)

/-- Everything the server sends over a connection with a given input. -/
def session (view : View) (s : State) (input : Text) : List Json :=
  converse view (input.length + 1) s { rest := input }

end Server

end DottedNames
