import Credis.ByteString

/-! The digest of `util/sha256.cpp`. -/

namespace Credis

open ByteString

namespace Sha256

def roundConstants : List UInt32 :=
  [0x428a2f98, 0x71374491, 0xb5c0fbcf, 0xe9b5dba5, 0x3956c25b, 0x59f111f1, 0x923f82a4, 0xab1c5ed5,
   0xd807aa98, 0x12835b01, 0x243185be, 0x550c7dc3, 0x72be5d74, 0x80deb1fe, 0x9bdc06a7, 0xc19bf174,
   0xe49b69c1, 0xefbe4786, 0x0fc19dc6, 0x240ca1cc, 0x2de92c6f, 0x4a7484aa, 0x5cb0a9dc, 0x76f988da,
   0x983e5152, 0xa831c66d, 0xb00327c8, 0xbf597fc7, 0xc6e00bf3, 0xd5a79147, 0x06ca6351, 0x14292967,
   0x27b70a85, 0x2e1b2138, 0x4d2c6dfc, 0x53380d13, 0x650a7354, 0x766a0abb, 0x81c2c92e, 0x92722c85,
   0xa2bfe8a1, 0xa81a664b, 0xc24b8b70, 0xc76c51a3, 0xd192e819, 0xd6990624, 0xf40e3585, 0x106aa070,
   0x19a4c116, 0x1e376c08, 0x2748774c, 0x34b0bcb5, 0x391c0cb3, 0x4ed8aa4a, 0x5b9cca4f, 0x682e6ff3,
   0x748f82ee, 0x78a5636f, 0x84c87814, 0x8cc70208, 0x90befffa, 0xa4506ceb, 0xbef9a3f7, 0xc67178f2]

def initialHash : List UInt32 :=
  [0x6a09e667, 0xbb67ae85, 0x3c6ef372, 0xa54ff53a, 0x510e527f, 0x9b05688c, 0x1f83d9ab, 0x5be0cd19]

def rotateRight (word count : UInt32) : UInt32 := (word >>> count) ||| (word <<< (32 - count))

/-- The zero bytes that the padding loop pushes before the length reaches 56
modulo 64; the loop takes at most 63 turns. -/
def padZeros : Nat → Bytes → Bytes
  | 0, message => message
  | fuel + 1, message =>
    if message.length % 64 = 56 then message else padZeros fuel (message ++ [0])

def lengthBytes (bits : UInt64) : Bytes :=
  ([7, 6, 5, 4, 3, 2, 1, 0] : List UInt64).map fun index => (bits >>> (index * 8)).toUInt8

def pad (input : Bytes) : Bytes :=
  padZeros 64 (input ++ [0x80]) ++ lengthBytes (UInt64.ofNat input.length * 8)

def wordAt (message : Bytes) (index : Nat) : UInt32 :=
  ((message.getD index 0).toUInt32 <<< 24) ||| ((message.getD (index + 1) 0).toUInt32 <<< 16) |||
    ((message.getD (index + 2) 0).toUInt32 <<< 8) ||| (message.getD (index + 3) 0).toUInt32

def nextWord (words : List UInt32) : UInt32 :=
  let back := fun distance => words.getD (words.length - distance) 0
  let s0 := rotateRight (back 15) 7 ^^^ rotateRight (back 15) 18 ^^^ (back 15 >>> 3)
  let s1 := rotateRight (back 2) 17 ^^^ rotateRight (back 2) 19 ^^^ (back 2 >>> 10)
  back 16 + s0 + back 7 + s1

def extend : Nat → List UInt32 → List UInt32
  | 0, words => words
  | count + 1, words => extend count (words ++ [nextWord words])

def schedule (message : Bytes) (offset : Nat) : List UInt32 :=
  extend 48 ((List.range 16).map fun index => wordAt message (offset + index * 4))

def round (state : List UInt32) (constant word : UInt32) : List UInt32 :=
  match state with
  | [a, b, c, d, e, f, g, h] =>
    let sum1 := rotateRight e 6 ^^^ rotateRight e 11 ^^^ rotateRight e 25
    let choice := (e &&& f) ^^^ (~~~e &&& g)
    let temp1 := h + sum1 + choice + constant + word
    let sum0 := rotateRight a 2 ^^^ rotateRight a 13 ^^^ rotateRight a 22
    let majority := (a &&& b) ^^^ (a &&& c) ^^^ (b &&& c)
    [temp1 + (sum0 + majority), a, b, c, d + temp1, e, f, g]
  | other => other

def compress (hash : List UInt32) (words : List UInt32) : List UInt32 :=
  let mixed := (roundConstants.zip words).foldl (fun state item => round state item.1 item.2) hash
  List.zipWith (· + ·) hash mixed

def digest (message : Bytes) : List UInt32 :=
  (List.range (message.length / 64)).foldl
    (fun hash block => compress hash (schedule message (block * 64))) initialHash

def hexDigit (nibble : UInt32) : UInt8 := (ascii "0123456789abcdef").getD nibble.toNat 0

def hexWord (word : UInt32) : Bytes :=
  ([24, 16, 8, 0] : List UInt32).flatMap fun shift =>
    [hexDigit ((word >>> (shift + 4)) &&& 0x0F), hexDigit ((word >>> shift) &&& 0x0F)]

end Sha256

def sha256 (input : Bytes) : Bytes :=
  (Sha256.digest (Sha256.pad input)).flatMap Sha256.hexWord

end Credis
