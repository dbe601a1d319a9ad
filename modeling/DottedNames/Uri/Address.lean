import DottedNames.Text.Quoted

/-!
# Network addresses

A host between square brackets has to be an address in numbers. The dotted
form has four fields from 0 to 255 without leading zeros. The colon form has
eight fields of one to four hexadecimal digits; one run of zero fields may be
left out as `::`, the last two fields may be written in dotted form, and a
percent sign may attach the name of a zone.

Only whether an address is well formed matters here, and if it is not, what is
wrong and where. `Family` tells the two forms apart.
-/

namespace DottedNames

namespace Address

/-- The two forms of an address. -/
inductive Family where
  | dotted
  | colon
deriving DecidableEq, Repr

/-- What is wrong with an address, with the rest of the text at the place
where that shows. -/
inductive Fault where
  | noAddress
  | notAnAddress
  | leadingZero
  | fieldTooLarge
  | emptyDottedField (rest : Text)
  | dottedTooLong
  | dottedTooShort
  | unexpected (rest : Text)
  | emptyZone
  | groupTooLong (rest : Text)
  | emptyGroup (rest : Text)
  | dottedMisplaced (rest : Text)
  | dottedDoesNotFit (rest : Text)
  | colonWanted (rest : Text)
  | colonAtEnd (rest : Text)
  | secondGap (rest : Text)
  | trailing (rest : Text)
  | tooShort
  | emptyGap
deriving DecidableEq, Repr

/-- The wording of a fault and the place it points to. -/
def Fault.describe : Fault → Text × Text
  | noAddress => (text "missing IPv6 address", [])
  | notAnAddress => (text "unable to parse IP", [])
  | leadingZero => (text "IPv4 field has octet with leading zero", [])
  | fieldTooLarge => (text "IPv4 field has value >255", [])
  | emptyDottedField rest => (text "IPv4 field must have at least one digit", rest)
  | dottedTooLong => (text "IPv4 address too long", [])
  | dottedTooShort => (text "IPv4 address too short", [])
  | unexpected rest => (text "unexpected character", rest)
  | emptyZone => (text "zone must be a non-empty string", [])
  | groupTooLong rest => (text "each group must have 4 or less digits", rest)
  | emptyGroup rest => (text "each colon-separated field must have at least one digit", rest)
  | dottedMisplaced rest =>
    (text "embedded IPv4 address must replace the final 2 fields of the address", rest)
  | dottedDoesNotFit rest =>
    (text "too many hex fields to fit an embedded IPv4 at the end of the address", rest)
  | colonWanted rest => (text "unexpected character, want colon", rest)
  | colonAtEnd rest => (text "colon must be followed by more characters", rest)
  | secondGap rest => (text "multiple :: in address", rest)
  | trailing rest => (text "trailing garbage after address", rest)
  | tooShort => (text "address string too short", [])
  | emptyGap => (text "the :: must expand to at least one field of zeros", [])

/-- The message about an address with a fault. -/
def Fault.message (fault : Fault) (address : Text) : Text :=
  let (wording, rest) := fault.describe
  text "ParseAddr(" ++ Text.quote address ++ text "): " ++ wording ++
    if rest.isEmpty then [] else text " (at " ++ Text.quote rest ++ text ")"

/-- How far the reading of a dotted address has come. -/
structure DottedState where
  /-- The fields that are complete. -/
  fields : Nat := 0
  /-- The value of the field being read. -/
  value : Nat := 0
  /-- The number of digits of the field being read. -/
  digits : Nat := 0

/-- Reads the fields of a dotted address from a state on. -/
def readDotted (state : DottedState) : Text → Except Fault Unit
  | [] => if state.fields < 3 then .error .dottedTooShort else .ok ()
  | b :: s =>
    if Byte.isDigit b then
      if state.digits = 1 ∧ state.value = 0 then .error .leadingZero
      else
        let value := state.value * 10 + (b.toNat - 0x30)
        if 255 < value then .error .fieldTooLarge
        else readDotted { state with value, digits := state.digits + 1 } s
    else if b == Byte.dot then
      if state.digits = 0 || s.isEmpty then .error (.emptyDottedField (b :: s))
      else if state.fields = 3 then .error .dottedTooLong
      else readDotted { fields := state.fields + 1 } s
    else .error (.unexpected (b :: s))

/-- Whether a byte is a hexadecimal digit. -/
def isHexDigit (b : UInt8) : Bool := (Byte.hexValue? b).isSome

/-- Reads groups of a colon address. `filled` groups of the eight stand before
the text, and `gap` says whether `::` was among them. The result is the number
of groups filled, whether there is a gap, and what is left of the text. The
first argument bounds the number of groups still to come. -/
def readGroups : (room : Nat) → (filled : Nat) → (gap : Bool) → Text →
    Except Fault (Nat × Bool × Text)
  | 0, filled, gap, s => .ok (filled, gap, s)
  | room + 1, filled, gap, s =>
    let group := s.takeWhile isHexDigit
    let rest := s.dropWhile isHexDigit
    if 4 < group.length then .error (.groupTooLong s)
    else if group.isEmpty then .error (.emptyGroup s)
    else match rest with
      | [] => .ok (filled + 1, gap, [])
      | b :: after =>
        if b == Byte.dot then
          if !gap && filled != 6 then .error (.dottedMisplaced s)
          else if 6 < filled then .error (.dottedDoesNotFit s)
          else match readDotted {} s with
            | .ok () => .ok (filled + 2, gap, [])
            | .error fault => .error fault
        else if b != Byte.colon then .error (.colonWanted rest)
        else match after with
          | [] => .error (.colonAtEnd rest)
          | c :: more =>
            if c == Byte.colon then
              if gap then .error (.secondGap after)
              else if more.isEmpty then .ok (filled + 1, true, [])
              else readGroups room (filled + 1) true more
            else readGroups room (filled + 1) gap after

/-- The number of groups of a colon address. -/
def groupCount : Nat := 8

/-- Reads a colon address without its zone. -/
def readColon (s : Text) : Except Fault Unit :=
  let finish (result : Nat × Bool × Text) : Except Fault Unit :=
    let (filled, gap, rest) := result
    if !rest.isEmpty then .error (.trailing rest)
    else if filled < groupCount then if gap then .ok () else .error .tooShort
    else if gap then .error .emptyGap
    else .ok ()
  match Text.dropPrefix? [Byte.colon, Byte.colon] s with
  | some [] => .ok ()
  | some rest => do finish (← readGroups groupCount 0 true rest)
  | none => do finish (← readGroups groupCount 0 false s)

/-- Reads a colon address with its zone. -/
def readZoned (s : Text) : Except Fault Unit :=
  match Text.cutAt (· == Byte.percent) s with
  | (_, some []) => .error .emptyZone
  | (address, _) => readColon address

/-- Reads an address; the first dot, colon or percent sign decides its form. -/
def read (s : Text) : Except Fault Family :=
  match s.find? fun b => b == Byte.dot || b == Byte.colon || b == Byte.percent with
  | none => .error .notAnAddress
  | some b =>
    if b == Byte.dot then (readDotted {} s).map fun _ => .dotted
    else if b == Byte.colon then (readZoned s).map fun _ => .colon
    else .error .noAddress

end Address

end DottedNames
