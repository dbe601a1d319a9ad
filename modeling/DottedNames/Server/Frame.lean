import DottedNames.Text.Numeral
import DottedNames.Text.Space

/-!
# Frames

A message travels in a frame: a block of header lines, each ended by carriage
return and newline, an empty line, and a body of as many bytes as the header
`Content-Length` says. Other headers are passed over, and of several lengths
the last one counts.

The input arrives in blocks of a fixed size, and a block is asked for only
when nothing more can be read without it. A body is taken in by pieces. Each
piece fills the room there is, which starts small and doubles once three
quarters of it are in use, but it does not go beyond the bytes that have
arrived. Nothing more is taken in once the pieces hold what is needed of the
body; the rest of the body stays in the input and is read as if it came after
the message.
-/

namespace DottedNames

namespace Server

/-! ## Input in blocks -/

/-- The size of the blocks in which input arrives. -/
def blockSize : Nat := 4096

/-- Input that is still to be read. -/
structure Inflow where
  rest : Text
  /-- How many bytes of it have arrived, if it goes on for so long. -/
  held : Nat := 0
deriving DecidableEq, Repr

/-- Passes over bytes that are read in one go. Unless all of them are there,
blocks arrive from the first of them on. -/
def Inflow.skip (count : Nat) (input : Inflow) : Inflow :=
  { rest := input.rest.drop count
    held :=
      if count ≤ input.held then input.held - count
      else (blockSize - count % blockSize) % blockSize }

/-! ## Headers -/

/-- The header that gives the length of the body. -/
def lengthHeader : Text := text "Content-Length: "

/-- A header line without its end, and what follows it. -/
def readHeaderLine (input : Inflow) : Option (Text × Inflow) :=
  match Text.cutAt (· == Byte.carriageReturn) input.rest with
  | (line, some (b :: _)) =>
    if b == Byte.newline then some (line, (input.skip (line.length + 1)).skip 1) else none
  | _ => none

/-- The length that a header line gives: none for another header, and a fault
for a length that is no 32-bit number. -/
def headerLength (line : Text) : Except Unit (Option Nat) :=
  match Text.dropPrefix? lengthHeader line with
  | none => .ok none
  | some value =>
    match Numeral.readDecimal (Text.trim value) with
    | .ok n => if n < Numeral.word32 then .ok (some n) else .error ()
    | .error _ => .error ()

/-- Reads header lines up to the empty one. The result is the last length
given, and what follows the headers. Every line uses one unit of fuel. -/
def readHeaders : (fuel : Nat) → (length : Nat) → Inflow → Option (Nat × Inflow)
  | 0, _, _ => none
  | fuel + 1, length, input =>
    match readHeaderLine input with
    | none => none
    | some ([], input) => if length = 0 then none else some (length, input)
    | some (line, input) =>
      match headerLength line with
      | .ok given => readHeaders fuel (given.getD length) input
      | .error _ => none

/-- The length of the body of the first frame, and the input from the body
on. -/
def readHead (input : Inflow) : Option (Nat × Inflow) :=
  readHeaders (input.rest.length + 1) 0 input

/-- A body with the headers it is sent with. -/
def writeFrame (body : Text) : Text :=
  lengthHeader ++ Text.decimal body.length ++ text "\r\n\r\n" ++ body

/-! ## Bodies -/

/-- How far a body has been taken in. -/
structure Intake where
  /-- How many of its bytes are taken in. -/
  taken : Nat := 0
  /-- How many of its bytes there is room for. -/
  room : Nat := 64
  /-- How many bytes have arrived beyond those. -/
  held : Nat
deriving DecidableEq, Repr

/-- Takes in one more piece of a body of a given length. When nothing has
arrived beyond what is taken in, a piece of at least a block arrives alone, and
for a smaller one a whole block arrives. -/
def Intake.next (length : Nat) (i : Intake) : Intake :=
  let room := if 3 * i.room / 4 ≤ i.taken then 2 * i.room else i.room
  let wanted := min room length - i.taken
  if i.held = 0 ∧ blockSize ≤ wanted then { taken := i.taken + wanted, room, held := 0 }
  else
    let held := if i.held = 0 then blockSize else i.held
    let piece := min wanted held
    { taken := i.taken + piece, room, held := held - piece }

/-- Takes in pieces of a body until they hold `needed` bytes. Every piece uses
one unit of fuel. -/
def Intake.upTo (length needed : Nat) : (fuel : Nat) → Intake → Intake
  | 0, i => i
  | fuel + 1, i => if needed ≤ i.taken then i else upTo length needed fuel (i.next length)

/-- Passes over what is taken in of a body for the first `needed` bytes of it.
A piece has a byte at least, so `needed` pieces are enough. -/
def Inflow.takeIn (length needed : Nat) (input : Inflow) : Inflow :=
  let intake := Intake.upTo length needed needed { held := input.held }
  { rest := input.rest.drop intake.taken, held := intake.held }

end Server

end DottedNames
