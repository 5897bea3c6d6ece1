import Credis.ByteString

/-! The RESP codec: the command parser with its cursor, and the encoders. The
cursor is an index into the input and may run past its end, as the pointer of
the source does behind the last argument. -/

namespace Credis

open ByteString

inductive ErrorCode
  | ok | parseError | networkError | authError | typeError | notFound | internalError
  | invalidArgument | unknownCommand | wrongNumberOfArgs | wrongType | timeout | protocolError
  deriving DecidableEq

structure Error where
  code : ErrorCode
  message : Bytes
  deriving DecidableEq

def protocolError (message : String) : Error := ⟨.protocolError, ascii message⟩

def byteAt (input : Bytes) (index : Nat) : UInt8 := input.getD index 0

/-- The digit loop of `parse_int_until_crlf`, with the 32-bit accumulator and
the cursor. -/
def scanDigits : Bytes → Int → Nat → Int × Nat
  | [], value, cursor => (value, cursor)
  | byte :: rest, value, cursor =>
    if isDigit byte then
      scanDigits rest (wrap32 (value * 10 + digitValue byte)) (cursor + 1)
    else (value, cursor)

def parseIntUntilCrlf (input : Bytes) (cursor : Nat) : Option (Int × Nat) :=
  if input.length ≤ cursor then none
  else
    let negative := byteAt input cursor == 45
    let start := if negative then cursor + 1 else cursor
    let (value, stop) := scanDigits (input.drop start) 0 start
    if input.length ≤ stop + 1 ∨ byteAt input stop ≠ 13 ∨ byteAt input (stop + 1) ≠ 10 then none
    else some (if negative then wrap32 (-value) else value, stop + 2)

/-- The loop over the bulk strings. Only the payload is checked against the end
of the input: the cursor skips two more bytes unseen. -/
def parseArgs (input : Bytes) : Nat → Nat → Except Error (List Bytes × Nat)
  | 0, cursor => .ok ([], cursor)
  | count + 1, cursor =>
    if input.length ≤ cursor ∨ byteAt input cursor ≠ 36 then
      .error (protocolError "Invalid RESP: expected bulk string")
    else
      match parseIntUntilCrlf input (cursor + 1) with
      | none => .error (protocolError "Invalid RESP: invalid bulk string length")
      | some (length, start) =>
        if length < 0 then
          .error (protocolError "Invalid RESP: invalid bulk string length")
        else if input.length < start + length.toNat then
          .error (protocolError "Incomplete RESP: bulk string truncated")
        else
          match parseArgs input count (start + length.toNat + 2) with
          | .error failure => .error failure
          | .ok (args, stop) => .ok ((input.drop start).take length.toNat :: args, stop)

/-- The common body of `parse_one` and `parse_one_into`, which differ only in
where they put the arguments. -/
def parseCommand (input : Bytes) : Except Error (List Bytes × Nat) :=
  if input.length = 0 ∨ byteAt input 0 ≠ 42 then
    .error (protocolError "Invalid RESP: expected array")
  else
    match parseIntUntilCrlf input 1 with
    | none => .error (protocolError "Invalid RESP: invalid array count")
    | some (count, cursor) =>
      if count < 0 then .error (protocolError "Invalid RESP: invalid array count")
      else parseArgs input count.toNat cursor

structure ParsedCommand where
  args : List Bytes
  consumed : Nat
  deriving DecidableEq

def parseOne (input : Bytes) : Except Error ParsedCommand :=
  (parseCommand input).map fun (args, consumed) => ⟨args, consumed⟩

def parseOneInto (input : Bytes) : Except Error (List Bytes × Nat) := parseCommand input

/-! The encoders. Each `encode_*_into` appends to its buffer what the function
here returns. -/

def respOk : Bytes := ascii "+OK" ++ crlf

def respQueued : Bytes := ascii "+QUEUED" ++ crlf

def respPong : Bytes := ascii "+PONG" ++ crlf

def encodeSimpleString (text : Bytes) : Bytes := 43 :: text ++ crlf

def encodeError (text : Bytes) : Bytes := 45 :: text ++ crlf

def encodeBulkString (text : Bytes) : Bytes := 36 :: natText text.length ++ crlf ++ text ++ crlf

def encodeNullBulkString : Bytes := ascii "$-1" ++ crlf

def encodeNullArray : Bytes := ascii "*-1" ++ crlf

def encodeInteger (value : Int) : Bytes := 58 :: intText value ++ crlf

def arrayHeader (count : Nat) : Bytes := 42 :: natText count ++ crlf

def encodeArray (elements : List Bytes) : Bytes :=
  arrayHeader elements.length ++ elements.flatMap encodeBulkString

def encodeRawArray (elements : List Bytes) : Bytes :=
  arrayHeader elements.length ++ elements.flatten

end Credis
