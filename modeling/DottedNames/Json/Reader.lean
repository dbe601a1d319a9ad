import DottedNames.Json.Basic

/-!
# Reading JSON

`readValue` reads one value at the start of a text and returns it with the
rest; `parse` wants the value to be all of the text, blanks apart. Every call
uses up one unit of fuel. A value uses at most two units for each of its
bytes, so the wrappers supply enough for any text. Arrays and objects may
stand inside each other down to `maxDepth` levels.

A string is read in two steps: first its units, bytes that stand for
themselves and code units written `\u`, then its text, in which two surrogate
units make one character and a lone surrogate, like a stray byte, becomes
U+FFFD.
-/

namespace DottedNames

namespace Json

/-- The bytes that may stand between the parts of a value. -/
def isBlank (b : UInt8) : Bool :=
  b == Byte.space || b == Byte.tab || b == Byte.newline || b == Byte.carriageReturn

/-- The text without the blanks in front. -/
def skipBlanks (s : Text) : Text := s.dropWhile isBlank

/-- One unit between the quotation marks of a string. -/
inductive StringUnit where
  | byte (value : UInt8)
  | code (value : Nat)
deriving DecidableEq, Repr

/-- The byte that a letter after a backslash stands for. -/
def escapedByte? (b : UInt8) : Option UInt8 :=
  if b == Byte.doubleQuote || b == Byte.backslash || b == Byte.slash then some b
  else if b == 0x62 then some 0x08
  else if b == 0x66 then some 0x0c
  else if b == 0x6e then some 0x0a
  else if b == 0x72 then some 0x0d
  else if b == 0x74 then some 0x09
  else none

/-- The value of four hexadecimal digits. -/
def codeUnit? (a b c d : UInt8) : Option Nat := do
  let a ← Byte.hexValue? a
  let b ← Byte.hexValue? b
  let c ← Byte.hexValue? c
  let d ← Byte.hexValue? d
  return ((a * 16 + b) * 16 + c) * 16 + d

/-- The units up to the closing quotation mark, and what follows it. -/
def readUnits : Text → Option (List StringUnit × Text)
  | [] => none
  | b :: s =>
    if b == Byte.doubleQuote then some ([], s)
    else if b < 0x20 then none
    else if b != Byte.backslash then
      (readUnits s).map fun (units, rest) => (.byte b :: units, rest)
    else match s with
      | [] => none
      | e :: s =>
        if e == 0x75 then
          match s with
          | w :: x :: y :: z :: s =>
            match codeUnit? w x y z with
            | some n => (readUnits s).map fun (units, rest) => (.code n :: units, rest)
            | none => none
          | _ => none
        else match escapedByte? e with
          | some b => (readUnits s).map fun (units, rest) => (.byte b :: units, rest)
          | none => none

/-- Code units that begin a surrogate pair. -/
def isHighSurrogate (n : Nat) : Bool := 0xd800 ≤ n && n ≤ 0xdbff

/-- Code units that end a surrogate pair. -/
def isLowSurrogate (n : Nat) : Bool := 0xdc00 ≤ n && n ≤ 0xdfff

/-- The bytes that a list of units stands for. -/
def assemble : List StringUnit → Text
  | [] => []
  | .byte b :: units => b :: assemble units
  | .code high :: .code low :: units =>
    if isHighSurrogate high && isLowSurrogate low then
      Utf8.encode (0x10000 + (high - 0xd800) * 0x400 + (low - 0xdc00)) ++ assemble units
    else if isHighSurrogate high || isLowSurrogate high then
      Utf8.replacement ++ assemble (.code low :: units)
    else Utf8.encode high ++ assemble (.code low :: units)
  | .code n :: units =>
    (if isHighSurrogate n || isLowSurrogate n then Utf8.replacement else Utf8.encode n) ++
      assemble units

/-- The text of a string after its opening quotation mark, and the rest. -/
def readString (s : Text) : Option (Text × Text) :=
  (readUnits s).map fun (units, rest) => (Utf8.repair (assemble units), rest)

/-- A run of at least one digit, and the rest. -/
def readDigits (s : Text) : Option (Text × Text) :=
  let digits := s.takeWhile Byte.isDigit
  if digits.isEmpty then none else some (digits, s.dropWhile Byte.isDigit)

/-- An optional sign in front, and the rest. -/
def readSign (allowPlus : Bool) : Text → Text × Text
  | [] => ([], [])
  | b :: s => if b == Byte.dash || allowPlus && b == 0x2b then ([b], s) else ([], b :: s)

/-- The digits before the point: a zero alone, or digits that begin with no
zero. -/
def readWhole (s : Text) : Option (Text × Text) :=
  match s with
  | [] => none
  | b :: rest => if b == 0x30 then some ([b], rest) else readDigits s

/-- The point and the digits after it, when there is a point. -/
def readFraction (s : Text) : Option (Text × Text) :=
  match s with
  | [] => some ([], [])
  | b :: rest =>
    if b == Byte.dot then (readDigits rest).map fun (digits, rest) => (b :: digits, rest)
    else some ([], s)

/-- The mark of the exponent and its digits, when there is a mark. -/
def readExponent (s : Text) : Option (Text × Text) :=
  match s with
  | [] => some ([], [])
  | b :: rest =>
    if b == 0x65 || b == 0x45 then
      let (sign, rest) := readSign true rest
      (readDigits rest).map fun (digits, rest) => (b :: sign ++ digits, rest)
    else some ([], s)

/-- The literal of a number, and the rest. -/
def readNumber (s : Text) : Option (Text × Text) := do
  let (sign, s) := readSign false s
  let (whole, s) ← readWhole s
  let (fraction, s) ← readFraction s
  let (exponent, s) ← readExponent s
  return (sign ++ whole ++ fraction ++ exponent, s)

/-- A fixed word that stands for a value, and the rest. -/
def readWord (word : Text) (value : Json) (s : Text) : Option (Json × Text) :=
  (Text.dropPrefix? word s).map fun rest => (value, rest)

/-- How many arrays and objects may stand around each other. -/
def maxDepth : Nat := 10000

mutual

/-- One value at the start of a text, and the rest. The value may have so many
levels of arrays and objects. -/
def readValue : (fuel levels : Nat) → Text → Option (Json × Text)
  | 0, _, _ => none
  | fuel + 1, levels, s =>
    match skipBlanks s with
    | [] => none
    | b :: rest =>
      if b == Byte.doubleQuote then
        (readString rest).map fun (value, rest) => (string value, rest)
      else if b == 0x5b then
        match levels, skipBlanks rest with
        | 0, _ => none
        | _, 0x5d :: rest => some (array [], rest)
        | levels + 1, rest =>
          (readItems fuel levels rest).map fun (items, rest) => (array items, rest)
      else if b == 0x7b then
        match levels, skipBlanks rest with
        | 0, _ => none
        | _, 0x7d :: rest => some (object [], rest)
        | levels + 1, rest =>
          (readMembers fuel levels rest).map fun (members, rest) => (object members, rest)
      else if b == 0x74 then readWord (text "true") (bool true) (b :: rest)
      else if b == 0x66 then readWord (text "false") (bool false) (b :: rest)
      else if b == 0x6e then readWord (text "null") null (b :: rest)
      else (readNumber (b :: rest)).map fun (literal, rest) => (number literal, rest)

/-- The items of an array up to its closing bracket, and the rest. -/
def readItems : (fuel levels : Nat) → Text → Option (List Json × Text)
  | 0, _, _ => none
  | fuel + 1, levels, s =>
    match readValue fuel levels s with
    | none => none
    | some (item, rest) =>
      match skipBlanks rest with
      | 0x2c :: rest =>
        (readItems fuel levels rest).map fun (items, rest) => (item :: items, rest)
      | 0x5d :: rest => some ([item], rest)
      | _ => none

/-- The members of an object up to its closing bracket, and the rest. -/
def readMembers : (fuel levels : Nat) → Text → Option (List (Text × Json) × Text)
  | 0, _, _ => none
  | fuel + 1, levels, s =>
    match skipBlanks s with
    | 0x22 :: rest =>
      match readString rest with
      | none => none
      | some (name, rest) =>
        match skipBlanks rest with
        | 0x3a :: rest =>
          match readValue fuel levels rest with
          | none => none
          | some (value, rest) =>
            match skipBlanks rest with
            | 0x2c :: rest =>
              (readMembers fuel levels rest).map fun (members, rest) =>
                ((name, value) :: members, rest)
            | 0x7d :: rest => some ([(name, value)], rest)
            | _ => none
        | _ => none
    | _ => none

end

/-- The first value of a text, and the rest. -/
def readFirst (s : Text) : Option (Json × Text) :=
  readValue (2 * s.length + 2) maxDepth s

/-- The value that makes up a text. -/
def parse (s : Text) : Option Json :=
  match readFirst s with
  | some (value, rest) => if (skipBlanks rest).isEmpty then some value else none
  | none => none

end Json

end DottedNames
