import Credis.HandlerCore

/-! The encoders that append to a buffer, and the array encoder for views. They
print numbers into a local buffer of a fixed size, where the ones of `RespCore`
use `std::to_string`. -/

namespace Credis

variable (out : Bytes) (elements : List Bytes)

open ByteString

/-- `std::to_chars` into a local buffer. Text that does not fit is not written at
all, and the caller copies the buffer without looking at the error code: there
are no bytes to speak of. -/
def toChars (size : Nat) (text : Bytes) : Option Bytes :=
  if text.length ≤ size then some text else none

def appendDigit (value : Nat) : Option Bytes :=
  if value < 10 then some (out ++ [UInt8.ofNat (48 + value)])
  else (toChars 11 (natText value)).map (out ++ ·)

def encodeSimpleStringInto (out text : Bytes) : Option Bytes := some (out ++ ([43] ++ text ++ crlf))

def encodeErrorInto (out text : Bytes) : Option Bytes := some (out ++ ([45] ++ text ++ crlf))

/-- The source repeats the body of `append_digit` here. -/
def encodeBulkStringInto (out text : Bytes) : Option Bytes := do
  let out ← appendDigit (out ++ [36]) text.length
  some (out ++ (crlf ++ text ++ crlf))

def appendInteger (value : Int) : Option Bytes :=
  if 0 ≤ value ∧ value < 10 then some (out ++ [UInt8.ofNat (48 + value.toNat)])
  else (toChars 21 (intText value)).map (out ++ ·)

def encodeIntegerInto (value : Int) : Option Bytes := do
  let out ← appendInteger (out ++ [58]) value
  some (out ++ crlf)

def encodeNullBulkStringInto : Option Bytes := some (out ++ (ascii "$-1" ++ crlf))

def encodeNullArrayInto : Option Bytes := some (out ++ (ascii "*-1" ++ crlf))

def appendHeader (count : Nat) : Option Bytes := do
  let out ← appendDigit (out ++ [42]) count
  some (out ++ crlf)

def encodeArrayInto : Option Bytes := do
  let out ← appendHeader out elements.length
  elements.foldlM encodeBulkStringInto out

/-- The overload for views has the same body. -/
def encodeArrayViewsInto : Option Bytes :=
  encodeArrayInto out elements

def encodeRawArrayInto : Option Bytes := do
  let out ← appendHeader out elements.length
  some (elements.foldl (· ++ ·) out)

def encodeFieldInto (field : Bytes × Bytes) : Option Bytes := do
  let out ← encodeBulkStringInto out field.1
  encodeBulkStringInto out field.2

def encodeEntryInto (entry : StreamEntry) : Option Bytes := do
  let out := out ++ (ascii "*2" ++ crlf)
  let out ← encodeBulkStringInto out entry.id
  let out ← appendHeader out (entry.fields.length * 2)
  entry.fields.foldlM encodeFieldInto out

def encodeEntriesInto (entries : List StreamEntry) : Option Bytes := do
  let out ← appendHeader out entries.length
  entries.foldlM encodeEntryInto out

def encodeStreamInto (stream : Key × List StreamEntry) : Option Bytes := do
  let out := out ++ (ascii "*2" ++ crlf)
  let out ← encodeBulkStringInto out stream.1
  let out ← appendHeader out stream.2.length
  stream.2.foldlM encodeEntryInto out

def encodeStreamEntriesInto (streams : List (Key × List StreamEntry)) :
    Option Bytes := do
  let out ← appendHeader out streams.length
  streams.foldlM encodeStreamInto out

def encodeView (result element : Bytes) : Option Bytes := do
  let length ← toChars 11 (natText element.length)
  some (result ++ ([36] ++ length ++ crlf ++ element ++ crlf))

/-- The overload of `encode_array` for views also prints into a buffer. -/
def encodeArrayViews : Option Bytes := do
  let count ← toChars 11 (natText elements.length)
  elements.foldlM encodeView ([42] ++ count ++ crlf)

/-! The eleven kinds of values that both families encode. -/

inductive RespValue
  | simpleString (text : Bytes)
  | bulkString (text : Bytes)
  | error (text : Bytes)
  | integer (value : Int)
  | nullBulkString
  | nullArray
  | array (elements : List Bytes)
  | arrayViews (elements : List Bytes)
  | rawArray (elements : List Bytes)
  | entries (entries : List StreamEntry)
  | streamEntries (streams : List (Key × List StreamEntry))

namespace RespValue

def encode : RespValue → Option Bytes
  | simpleString text => some (encodeSimpleString text)
  | bulkString text => some (encodeBulkString text)
  | error text => some (encodeError text)
  | integer value => some (encodeInteger value)
  | nullBulkString => some encodeNullBulkString
  | nullArray => some encodeNullArray
  | array elements => some (encodeArray elements)
  | arrayViews elements => encodeArrayViews elements
  | rawArray elements => some (encodeRawArray elements)
  | entries items => some (encodeEntries items)
  | streamEntries streams => some (encodeStreamEntries streams)

def encodeInto (out : Bytes) : RespValue → Option Bytes
  | simpleString text => encodeSimpleStringInto out text
  | bulkString text => encodeBulkStringInto out text
  | error text => encodeErrorInto out text
  | integer value => encodeIntegerInto out value
  | nullBulkString => encodeNullBulkStringInto out
  | nullArray => encodeNullArrayInto out
  | array elements => encodeArrayInto out elements
  | arrayViews elements => encodeArrayViewsInto out elements
  | rawArray elements => encodeRawArrayInto out elements
  | entries items => encodeEntriesInto out items
  | streamEntries streams => encodeStreamEntriesInto out streams

end RespValue

end Credis
