import DottedNames.Text.Numeral
import DottedNames.Text.Quoted

/-!
# Flags

Flags and words may come in any order on a command line. A flag has a name,
after two dashes, and perhaps a letter, after one. Its value follows an equals
sign or is the next argument; after a letter it may also follow directly. A
switch and a counter have a value of their own when none is given, so they
never take the next argument, and their letters can be put together after one
dash. Two dashes alone end the flags, a dash alone is a word.

Reading stops at the first fault. A later value of a flag goes over an earlier
one.
-/

namespace DottedNames

namespace CommandLine

/-- What values a flag takes. -/
inductive FlagKind where
  /-- On or off, and on when no value is given. -/
  | switch
  /-- Any text, with the one taken by default. -/
  | text (byDefault : Text)
  /-- A number that goes up by one when no value is given. -/
  | counter
deriving DecidableEq, Repr

/-- A flag of a command. -/
structure Flag where
  name : Text
  letter : Option UInt8
  kind : FlagKind
  /-- What the flag is for, as the help shows it. -/
  usage : Text
deriving DecidableEq, Repr

/-- Why a value does not suit a flag. -/
inductive ValueFault where
  | notBoolean
  | notNumber (fault : Numeral.Fault)
deriving DecidableEq, Repr

/-- Why arguments cannot be read. -/
inductive FlagFault where
  | badSyntax (argument : Text)
  | unknownName (name : Text)
  /-- A letter no flag has, with the letters from there on. -/
  | unknownLetter (letter : UInt8) (letters : Text)
  | missingValue (name : Text)
  /-- A letter whose value is missing, with the letters from there on. -/
  | missingLetterValue (letter : UInt8) (letters : Text)
  | badValue (flag : Flag) (value : Text) (fault : ValueFault)
deriving DecidableEq, Repr

/-- The wording of a fault about a value. -/
def ValueFault.message (value : Text) : ValueFault → Text
  | notBoolean => text "strconv.ParseBool: parsing " ++ Text.quote value ++ text ": invalid syntax"
  | notNumber fault =>
    text "strconv.ParseInt: parsing " ++ Text.quote value ++ text ": " ++ fault.message

/-- How a flag is called in messages and in help. -/
def Flag.label (flag : Flag) : Text :=
  match flag.letter with
  | some letter => [Byte.dash, letter] ++ text ", --" ++ flag.name
  | none => text "--" ++ flag.name

/-- A letter in a message. A byte outside ASCII is shown by the first byte of
the character with its number. -/
def quoteLetter (letter : UInt8) : Text :=
  Text.quoteChar ((Utf8.encode letter.toNat).headD letter).toNat

/-- The wording of a fault. -/
def FlagFault.message : FlagFault → Text
  | badSyntax argument => text "bad flag syntax: " ++ argument
  | unknownName name => text "unknown flag: --" ++ name
  | unknownLetter letter letters =>
    text "unknown shorthand flag: " ++ quoteLetter letter ++ text " in -" ++ letters
  | missingValue name => text "flag needs an argument: --" ++ name
  | missingLetterValue letter letters =>
    text "flag needs an argument: " ++ quoteLetter letter ++ text " in -" ++ letters
  | badValue flag value fault =>
    text "invalid argument " ++ Text.quote value ++ text " for " ++ Text.quote flag.label ++
      text " flag: " ++ fault.message value

/-- The value of a flag. -/
inductive FlagValue where
  | switch (on : Bool)
  | text (value : Text)
  | counter (value : Int)
deriving DecidableEq, Repr

/-- Arguments as read: flag values, the latest in front, and words. -/
structure Reading where
  values : List (Text × FlagValue) := []
  words : List Text := []
deriving DecidableEq, Repr

namespace Reading

/-- The value given to a flag. -/
def value? (r : Reading) (name : Text) : Option FlagValue := r.values.lookup name

/-- Whether a switch is on. -/
def isOn (r : Reading) (name : Text) : Bool := r.value? name == some (.switch true)

/-- The text given to a flag, or a default. -/
def textOf (r : Reading) (name byDefault : Text) : Text :=
  match r.value? name with
  | some (.text value) => value
  | _ => byDefault

/-- Adds a word. -/
def addWord (r : Reading) (word : Text) : Reading := { r with words := r.words ++ [word] }

/-- Adds the value of a flag. -/
def addValue (r : Reading) (name : Text) (value : FlagValue) : Reading :=
  { r with values := (name, value) :: r.values }

end Reading

/-- The spellings of on and off. -/
def readBoolean (s : Text) : Option Bool :=
  if [text "1", text "t", text "T", text "TRUE", text "true", text "True"].contains s then
    some true
  else if [text "0", text "f", text "F", text "FALSE", text "false", text "False"].contains s then
    some false
  else none

/-- The value that means one more for a counter. -/
def oneMore : Text := text "+1"

namespace Flag

/-- The value of a flag that is given without one. -/
def implied? (flag : Flag) : Option Text :=
  match flag.kind with
  | .switch => some (DottedNames.text "true")
  | .text _ => none
  | .counter => some oneMore

/-- Gives a flag a value. -/
def set (flag : Flag) (r : Reading) (value : Text) : Except FlagFault Reading :=
  match flag.kind with
  | .text _ => .ok (r.addValue flag.name (.text value))
  | .switch =>
    match readBoolean value with
    | some on => .ok (r.addValue flag.name (.switch on))
    | none => .error (.badValue flag value .notBoolean)
  | .counter =>
    if value = oneMore then
      let count := match r.value? flag.name with
        | some (.counter n) => n
        | _ => 0
      .ok (r.addValue flag.name (.counter (count + 1)))
    else match Numeral.readLiteral value with
      | .ok n => .ok (r.addValue flag.name (.counter n))
      | .error fault => .error (.badValue flag value (.notNumber fault))

end Flag

/-- What one argument comes to. -/
inductive Step where
  /-- The argument is dealt with. -/
  | settled (reading : Reading)
  /-- The next argument is the value of a flag; the fault arises without it. -/
  | wantsValue (flag : Flag) (reading : Reading) (fault : FlagFault)

/-- Reads letters after one dash. Letters that begin with `test.` are meant for
someone else and passed over. -/
def readLetters (flags : List Flag) (r : Reading) : Text → Except FlagFault Step
  | [] => .ok (.settled r)
  | letter :: more =>
    if (text "test.").isPrefixOf (letter :: more) then .ok (.settled r)
    else match flags.find? fun f => f.letter == some letter with
      | none => .error (.unknownLetter letter (letter :: more))
      | some flag =>
        if more.head? == some Byte.equals && 1 < more.length then
          (flag.set r more.tail).map .settled
        else match flag.implied? with
          | some value =>
            match flag.set r value with
            | .ok r => readLetters flags r more
            | .error fault => .error fault
          | none =>
            if more.isEmpty then
              .ok (.wantsValue flag r (.missingLetterValue letter (letter :: more)))
            else (flag.set r more).map .settled

/-- Reads a name after two dashes. -/
def readName (flags : List Flag) (r : Reading) (argument : Text) : Except FlagFault Step :=
  let afterDashes := argument.drop 2
  match afterDashes with
  | [] => .error (.badSyntax argument)
  | b :: _ =>
    if b == Byte.dash || b == Byte.equals then .error (.badSyntax argument)
    else
      let (name, value) := Text.cutAt (· == Byte.equals) afterDashes
      match flags.find? fun f => f.name == name with
      | none => .error (.unknownName name)
      | some flag =>
        match value, flag.implied? with
        | some value, _ => (flag.set r value).map .settled
        | none, some value => (flag.set r value).map .settled
        | none, none => .ok (.wantsValue flag r (.missingValue name))

/-- Two dashes, which end the flags. -/
def endOfFlags : Text := [Byte.dash, Byte.dash]

/-- Reads one argument that is not the end of flags. -/
def readOne (flags : List Flag) (r : Reading) (argument : Text) : Except FlagFault Step :=
  match argument with
  | [] => .ok (.settled (r.addWord argument))
  | [_] => .ok (.settled (r.addWord argument))
  | a :: b :: rest =>
    if a != Byte.dash then .ok (.settled (r.addWord argument))
    else if b == Byte.dash then readName flags r argument
    else readLetters flags r (b :: rest)

/-- Reads arguments after those that made up a reading. -/
def readFrom (flags : List Flag) (r : Reading) : List Text → Except FlagFault Reading
  | [] => .ok r
  | argument :: rest =>
    if argument = endOfFlags then .ok { r with words := r.words ++ rest }
    else match readOne flags r argument with
      | .error fault => .error fault
      | .ok (.settled r) => readFrom flags r rest
      | .ok (.wantsValue flag r fault) =>
        match rest with
        | [] => .error fault
        | value :: rest =>
          match flag.set r value with
          | .ok r => readFrom flags r rest
          | .error fault => .error fault

/-- Reads the arguments of a command with given flags. -/
def readFlags (flags : List Flag) (arguments : List Text) : Except FlagFault Reading :=
  readFrom flags {} arguments

end CommandLine

end DottedNames
