import DottedNames.Path.Basic
import DottedNames.Uri.Address
import DottedNames.Uri.Escape

/-!
# Documents by URI

An editor names a document by URI. A URI with the beginning `file://` names
the file at its path: the fragment and the query are cut off, the authority,
everything up to the next slash, is checked and set aside, and the rest is the
path, with its escapes replaced and in normal form. Any other text is taken as
a path as it stands.

A `file` URI is refused for a control byte, for an authority that is not well
formed and for an escape that is not, and the first of these in that order is
the one reported. The fragment comes last.
-/

namespace DottedNames

namespace Uri

/-- What is wrong with a URI. -/
inductive Fault where
  | controlByte
  | escape (fault : EscapeFault)
  | badUser
  | badLiteral
  | unclosedBracket
  | badService (shown : Text)
  | badAddress (address : Text) (fault : Address.Fault)
deriving DecidableEq, Repr

/-- The wording of a fault. -/
def Fault.message : Fault → Text
  | .controlByte => text "net/url: invalid control character in URL"
  | .escape (.badEscape shown) => text "invalid URL escape " ++ Text.quote shown
  | .escape (.badHostByte b) => text "invalid character " ++ Text.quote [b] ++ text " in host name"
  | .badUser => text "net/url: invalid userinfo"
  | .badLiteral => text "invalid IP-literal"
  | .unclosedBracket => text "missing ']' in host"
  | .badService shown => text "invalid port " ++ Text.quote shown ++ text " after host"
  | .badAddress address fault => text "invalid host: " ++ fault.message address

/-- A fault and the part of the URI that is shown with it. -/
structure Refusal where
  shown : Text
  fault : Fault
deriving DecidableEq, Repr

/-- The wording of a refusal. -/
def Refusal.message (r : Refusal) : Text :=
  text "parse " ++ Text.quote r.shown ++ text ": " ++ r.fault.message

/-- Control bytes, which no URI may hold. -/
def isControl (b : UInt8) : Bool := b < 0x20 || b == 0x7f

/-- Replaces escapes in a part of a URI. -/
def decode (part : Part) (s : Text) : Except Fault Text :=
  match unescape part s with
  | .ok decoded => .ok decoded
  | .error fault => .error (.escape fault)

/-- The service after a host: nothing, or a colon and any number of digits. -/
def isService : Text → Bool
  | [] => true
  | b :: digits => b == Byte.colon && digits.all Byte.isDigit

/-- The text before the first occurrence of another, and the rest from there. -/
def splitBefore (mark : Text) : Text → Option (Text × Text)
  | [] => none
  | b :: s =>
    if mark.isPrefixOf (b :: s) then some ([], b :: s)
    else (splitBefore mark s).map fun (before, rest) => (b :: before, rest)

/-- The text between brackets with its escapes replaced. A zone starts at the
first escaped percent sign. -/
def decodeLiteral (s : Text) : Except Fault Text :=
  match splitBefore (text "%25") s with
  | some (address, zone) => do
    let address ← decode .host address
    let zone ← decode .zone zone
    return address ++ zone
  | none => decode .host s

/-- Checks a host in brackets, given without its opening bracket. -/
def checkLiteral (s : Text) : Except Fault Unit :=
  match Text.cutLast? 0x5d s with
  | none => .error .unclosedBracket
  | some (inside, service) => do
    if !isService service then throw (.badService service)
    let _ ← decode .host service
    let address ← decodeLiteral inside
    match Address.read address with
    | .error fault => throw (.badAddress address fault)
    | .ok .dotted => throw .badLiteral
    | .ok .colon => return ()

/-- Checks a host given by name. -/
def checkName (s : Text) : Except Fault Unit := do
  if let some (_, digits) := Text.cutLast? Byte.colon s then
    if !isService (Byte.colon :: digits) then throw (.badService (Byte.colon :: digits))
  let _ ← decode .host s

/-- Checks the host of an authority, with its service. -/
def checkHost (s : Text) : Except Fault Unit :=
  match Text.cutLast? 0x5b s with
  | some ([], literal) => checkLiteral literal
  | some _ => .error .badLiteral
  | none => checkName s

/-- The bytes that may stand in the user part of an authority. -/
def isUserByte (b : UInt8) : Bool :=
  Byte.isAlnum b || (text "-._:~!$&'()*+,;=%@").contains b

/-- Checks the user part of an authority, a name with or without a password. -/
def checkUser (s : Text) : Except Fault Unit := do
  if !s.all isUserByte then throw .badUser
  let (name, password) := Text.cutAt (· == Byte.colon) s
  let _ ← decode .ordinary name
  let _ ← decode .ordinary (password.getD [])

/-- Checks an authority: the host first, then the user in front of it. -/
def checkAuthority (s : Text) : Except Fault Unit :=
  match Text.cutLast? 0x40 s with
  | none => checkHost s
  | some (user, host) => do
    checkHost host
    checkUser user

/-- The URI without its query, cut off at the first question mark. -/
def dropQuery (s : Text) : Text := (Text.cutAt (· == 0x3f) s).1

/-- The path of a `file` URI, given without its beginning and its fragment. -/
def filePath (s : Text) : Except Fault Text := do
  let s := dropQuery s
  checkAuthority (s.takeWhile (· != Byte.slash))
  decode .ordinary (s.dropWhile (· != Byte.slash))

/-- The beginning of the URIs that name files. -/
def fileScheme : Text := text "file://"

/-- The path that a document's URI names. -/
def toPath (uri : Text) : Except Refusal Text :=
  match Text.dropPrefix? fileScheme uri with
  | none => .ok uri
  | some _ =>
    let (whole, fragment) := Text.cutAt (· == 0x23) uri
    if whole.any isControl then .error ⟨whole, .controlByte⟩
    else match filePath (whole.drop fileScheme.length) with
      | .error fault => .error ⟨whole, fault⟩
      | .ok path =>
        match decode .ordinary (fragment.getD []) with
        | .error fault => .error ⟨uri, fault⟩
        | .ok _ => .ok (Path.clean path)

end Uri

end DottedNames
