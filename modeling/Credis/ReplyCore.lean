import Credis.RespCore

/-! How a client reads replies. A value is a line, a bulk string or the header of
an array, whose elements are then values that are still to come. -/

namespace Credis

open ByteString

def readLine : Bytes → Option (Bytes × Bytes)
  | [] => none
  | 13 :: 10 :: rest => some ([], rest)
  | byte :: rest => (readLine rest).map fun read => (byte :: read.1, read.2)

def lineSafe : Bytes → Bool
  | [] => true
  | 13 :: 10 :: _ => false
  | _ :: rest => lineSafe rest

def readNumber (input : Bytes) : Option (Int × Bytes) :=
  match readLine input with
  | none => none
  | some (line, rest) => (parseInteger line).map fun value => (value, rest)

def readPayload (length : Nat) (input : Bytes) : Option Bytes :=
  if (input.drop length).take 2 = crlf then some (input.drop (length + 2)) else none

/-- One value: the number of elements that belong to it and are still to come,
and what follows. -/
def readValue : Bytes → Option (Nat × Bytes)
  | 43 :: input => (readLine input).map fun read => (0, read.2)
  | 45 :: input => (readLine input).map fun read => (0, read.2)
  | 58 :: input => (readNumber input).map fun read => (0, read.2)
  | 36 :: input =>
    match readNumber input with
    | none => none
    | some (length, rest) =>
      if length = -1 then some (0, rest)
      else if length < 0 then none
      else (readPayload length.toNat rest).map fun rest => (0, rest)
  | 42 :: input =>
    match readNumber input with
    | none => none
    | some (count, rest) =>
      if count = -1 then some (0, rest)
      else if count < 0 then none
      else some (count.toNat, rest)
  | _ => none

/-- What follows this many values. Every value takes at least one byte, so the
length of the input bounds the turns. -/
def readValues : Nat → Nat → Bytes → Option Bytes
  | _, 0, input => some input
  | 0, _ + 1, _ => none
  | fuel + 1, count + 1, input =>
    match readValue input with
    | none => none
    | some (elements, rest) => readValues fuel (elements + count) rest

def isValues (count : Nat) (text : Bytes) : Bool :=
  readValues text.length count text == some []

end Credis
