import Mathlib.Algebra.Group.Nat.Defs
import Mathlib.Data.Nat.NthRoot.Defs

/-! SHA-256 as FIPS 180-4 defines it, on bits. Nothing in this file refers to the server. -/

namespace Sha2

def rotr (count : Nat) (x : UInt32) : UInt32 := ⟨x.toBitVec.rotateRight count⟩

def shr (count : Nat) (x : UInt32) : UInt32 := ⟨x.toBitVec >>> count⟩

def ch (x y z : UInt32) : UInt32 := (x &&& y) ^^^ (~~~x &&& z)

def maj (x y z : UInt32) : UInt32 := (x &&& y) ^^^ (x &&& z) ^^^ (y &&& z)

def bigSigma0 (x : UInt32) : UInt32 := rotr 2 x ^^^ rotr 13 x ^^^ rotr 22 x

def bigSigma1 (x : UInt32) : UInt32 := rotr 6 x ^^^ rotr 11 x ^^^ rotr 25 x

def smallSigma0 (x : UInt32) : UInt32 := rotr 7 x ^^^ rotr 18 x ^^^ shr 3 x

def smallSigma1 (x : UInt32) : UInt32 := rotr 17 x ^^^ rotr 19 x ^^^ shr 10 x

def primes : List Nat :=
  (List.range 312).filter fun n => 2 ≤ n ∧ ∀ d ∈ List.range n, d ∣ n → d = 1

def rootBits (degree n : Nat) : UInt32 := UInt32.ofNat (Nat.nthRoot degree (n * 2 ^ (32 * degree)))

def roundConstant (t : Nat) : UInt32 := rootBits 3 (primes.getD t 0)

/-- The eight working variables, and the eight words of a hash value. -/
structure Words where
  (a b c d e f g h : UInt32)

def Words.toList (words : Words) : List UInt32 :=
  [words.a, words.b, words.c, words.d, words.e, words.f, words.g, words.h]

def initialHash : Words :=
  ⟨rootBits 2 2, rootBits 2 3, rootBits 2 5, rootBits 2 7, rootBits 2 11, rootBits 2 13,
    rootBits 2 17, rootBits 2 19⟩

def schedule (block : Nat → UInt32) (t : Nat) : UInt32 :=
  if t < 16 then block t
  else smallSigma1 (schedule block (t - 2)) + schedule block (t - 7) +
    smallSigma0 (schedule block (t - 15)) + schedule block (t - 16)

def step (words : Words) (constant word : UInt32) : Words :=
  let temp1 := words.h + bigSigma1 words.e + ch words.e words.f words.g + constant + word
  let temp2 := bigSigma0 words.a + maj words.a words.b words.c
  ⟨temp1 + temp2, words.a, words.b, words.c, words.d + temp1, words.e, words.f, words.g⟩

def compress (hash : Words) (block : Nat → UInt32) : Words :=
  let mixed := (List.range 64).foldl
    (fun words t => step words (roundConstant t) (schedule block t)) hash
  ⟨mixed.a + hash.a, mixed.b + hash.b, mixed.c + hash.c, mixed.d + hash.d, mixed.e + hash.e,
    mixed.f + hash.f, mixed.g + hash.g, mixed.h + hash.h⟩

def bits (width value : Nat) : List Bool :=
  (List.range width).map fun i => value.testBit (width - 1 - i)

def ofBits (bits : List Bool) : Nat := bits.foldl (fun value bit => 2 * value + bit.toNat) 0

/-- A one, as few zeros as lead to 448 modulo 512, and the length. -/
def padded (message : List Bool) : List Bool :=
  message ++ true :: List.replicate ((959 - message.length % 512) % 512) false ++
    bits 64 message.length

def block (message : List Bool) (index t : Nat) : UInt32 :=
  UInt32.ofNat (ofBits ((message.drop (512 * index + 32 * t)).take 32))

def digest (message : List Bool) : Words :=
  (List.range ((padded message).length / 512)).foldl
    (fun hash index => compress hash (block (padded message) index)) initialHash

def messageBits (bytes : List UInt8) : List Bool := bytes.flatMap fun byte => bits 8 byte.toNat

def hex (word : UInt32) : List UInt8 :=
  (List.range 8).map fun i =>
    let digit := word.toNat / 16 ^ (7 - i) % 16
    if digit < 10 then UInt8.ofNat (48 + digit) else UInt8.ofNat (87 + digit)

end Sha2
