import Mathlib.Tactic.Ring
import Credis.Sha2
import Credis.Sha256

/-! The digest is that of the standard: first the padding and the words of a block, then
the schedule, the rounds and the blocks. -/

namespace Sha2

open List

theorem bits_add (first second value : Nat) :
    bits (first + second) value = bits first (value >>> second) ++ bits second value := by
  rw [bits, range_add, map_append, map_map, bits, bits]
  congr 1
  · refine map_congr_left fun i member => ?_
    have inside := mem_range.mp member
    rw [Nat.testBit_shiftRight]
    congr 1
    omega
  · refine map_congr_left fun i member => ?_
    have inside := mem_range.mp member
    dsimp only [Function.comp_apply]
    congr 1
    omega

theorem bits_length (width value : Nat) : (bits width value).length = width := by
  rw [bits, length_map, length_range]

theorem bits_mod (width value : Nat) : bits width (value % 2 ^ width) = bits width value := by
  refine map_congr_left fun i member => ?_
  have inside := mem_range.mp member
  rw [Nat.testBit_mod_two_pow, decide_eq_true (by omega), Bool.true_and]

theorem foldl_bits (width value start : Nat) :
    (bits width value).foldl (fun value bit => 2 * value + bit.toNat) start =
      start * 2 ^ width + value % 2 ^ width := by
  induction width generalizing value with
  | zero => simp [bits, Nat.mod_one]
  | succ width ih =>
    have last : bits 1 value = [value.testBit 0] := rfl
    have bit : (value.testBit 0).toNat = value % 2 := by
      rw [Nat.testBit_zero]
      rcases Nat.mod_two_eq_zero_or_one value with even | odd
      · simp [even]
      · simp [odd]
    have parts : value % 2 ^ (width + 1) = value % 2 + 2 * (value / 2 % 2 ^ width) := by
      rw [Nat.pow_succ', Nat.mod_mul]
    rw [bits_add, last, foldl_append, ih, foldl_cons, foldl_nil, parts, bit,
      Nat.shiftRight_one]
    ring

theorem messageBits_cons (byte : UInt8) (bytes : List UInt8) :
    messageBits (byte :: bytes) = bits 8 byte.toNat ++ messageBits bytes := rfl

theorem messageBits_append (first second : List UInt8) :
    messageBits (first ++ second) = messageBits first ++ messageBits second :=
  flatMap_append

theorem messageBits_length (bytes : List UInt8) :
    (messageBits bytes).length = 8 * bytes.length := by
  induction bytes with
  | nil => rfl
  | cons byte bytes ih =>
    rw [messageBits_cons, length_append, ih, bits_length, length_cons]
    omega

theorem messageBits_drop (bytes : List UInt8) (count : Nat) :
    (messageBits bytes).drop (8 * count) = messageBits (bytes.drop count) := by
  induction bytes generalizing count with
  | nil => simp [messageBits]
  | cons byte bytes ih =>
    cases count with
    | zero => rfl
    | succ count =>
      rw [messageBits_cons, Nat.mul_succ, Nat.add_comm, ← drop_drop,
        drop_left' (bits_length 8 _), ih, drop_succ_cons]

theorem messageBits_zeros (count : Nat) :
    messageBits (replicate count 0) = replicate (8 * count) false := by
  induction count with
  | zero => rfl
  | succ count ih =>
    rw [replicate_succ, messageBits_cons, ih, Nat.mul_succ, Nat.add_comm,
      replicate_add]
    rfl

end Sha2

namespace Credis

open ByteString
open Sha2 (messageBits messageBits_append)

variable {message input : Bytes} {count index : Nat}

namespace Sha256

variable (hash : Sha2.Words) (block : Nat → UInt32)

theorem padZeros_eq {fuel : Nat} (enough : (120 - message.length % 64) % 64 < fuel) :
    padZeros fuel message =
      message ++ List.replicate ((120 - message.length % 64) % 64) 0 := by
  induction fuel generalizing message with
  | zero => omega
  | succ fuel ih =>
    rw [padZeros]
    split
    · rename_i full
      rw [full, List.replicate_zero, List.append_nil]
    have next : (120 - message.length % 64) % 64 =
        (120 - (message ++ [0]).length % 64) % 64 + 1 := by
      rw [List.length_append, List.length_singleton]
      omega
    rw [ih (by omega), next, List.append_assoc, List.replicate_succ, List.singleton_append]

def zeros (input : Bytes) : Nat := (120 - (input.length + 1) % 64) % 64

theorem pad_eq (input : Bytes) : pad input =
    (input ++ 0x80 :: List.replicate (zeros input) 0) ++
      lengthBytes (UInt64.ofNat input.length * 8) := by
  have length : (input ++ [0x80]).length = input.length + 1 := by
    rw [List.length_append, List.length_singleton]
  rw [pad, padZeros_eq (by omega), length, List.append_assoc input, List.singleton_append]
  rfl

theorem messageBits_lengthBytes (length : UInt64) :
    messageBits (lengthBytes length) = Sha2.bits 64 length.toNat := by
  have byte : ∀ index : UInt64, index.toNat < 8 →
      Sha2.bits 8 (length >>> (index * 8)).toUInt8.toNat =
        Sha2.bits 8 (length.toNat >>> (8 * index.toNat)) := by
    intro index small
    rw [UInt64.toNat_toUInt8, Sha2.bits_mod, UInt64.toNat_shiftRight, UInt64.toNat_mul]
    congr 2
    rw [show (8 : UInt64).toNat = 8 from rfl]
    omega
  simp only [lengthBytes, List.map_cons, List.map_nil, Sha2.messageBits_cons]
  rw [byte 7 (by decide), byte 6 (by decide), byte 5 (by decide), byte 4 (by decide),
    byte 3 (by decide), byte 2 (by decide), byte 1 (by decide), byte 0 (by decide),
    Sha2.bits_add 8 56, Sha2.bits_add 8 48, Sha2.bits_add 8 40, Sha2.bits_add 8 32,
    Sha2.bits_add 8 24, Sha2.bits_add 8 16, Sha2.bits_add 8 8]
  rfl

theorem toNat_bits (short : input.length < 2 ^ 61) :
    (UInt64.ofNat input.length * 8).toNat = 8 * input.length := by
  rw [UInt64.toNat_mul, UInt64.toNat_ofNat', show (8 : UInt64).toNat = 8 from rfl]
  omega

theorem messageBits_pad (short : input.length < 2 ^ 61) :
    messageBits (pad input) = Sha2.padded (messageBits input) := by
  have one : Sha2.bits 8 (0x80 : UInt8).toNat = true :: List.replicate 7 false := by decide
  have count : (959 - 8 * input.length % 512) % 512 = 7 + 8 * zeros input := by
    unfold zeros
    omega
  rw [pad_eq, messageBits_append, messageBits_append, Sha2.messageBits_cons,
    Sha2.messageBits_zeros, messageBits_lengthBytes, toNat_bits short, one, Sha2.padded,
    Sha2.messageBits_length, count, List.replicate_add]
  simp

theorem pad_injective {first second : Bytes} (left : first.length < 2 ^ 61)
    (right : second.length < 2 ^ 61) (same : pad first = pad second) : first = second := by
  rw [pad_eq, pad_eq] at same
  obtain ⟨front, lengths⟩ := List.append_inj' same rfl
  have bits := congrArg (fun bytes => Sha2.ofBits (messageBits bytes)) lengths
  simp only [messageBits_lengthBytes, toNat_bits left, toNat_bits right, Sha2.ofBits,
    Sha2.foldl_bits] at bits
  exact (List.append_inj front (by omega)).1

/-! The words of a block. -/

theorem or_bytes (a b c d : UInt8) : ((a.toUInt32 <<< 24) ||| (b.toUInt32 <<< 16) |||
    (c.toUInt32 <<< 8) ||| d.toUInt32).toNat =
      ((a.toNat * 2 ^ 8 + b.toNat) * 2 ^ 8 + c.toNat) * 2 ^ 8 + d.toNat := by
  have shift : ∀ (byte : UInt8) (count : UInt32), count.toNat ≤ 24 →
      (byte.toUInt32 <<< count).toNat = byte.toNat <<< count.toNat := by
    intro byte count small
    have below := byte.toNat_lt
    rw [UInt32.toNat_shiftLeft, UInt8.toNat_toUInt32, Nat.mod_eq_of_lt (by omega : _ < 32),
      Nat.mod_eq_of_lt, Nat.shiftLeft_eq]
    rw [Nat.shiftLeft_eq]
    exact (Nat.mul_lt_mul_of_lt_of_le byte.toNat_lt (Nat.pow_le_pow_right (by decide) small)
      (by decide) : _ < 2 ^ 8 * 2 ^ 24)
  have below : b.toNat < 2 ^ 8 ∧ c.toNat < 2 ^ 8 ∧ d.toNat < 2 ^ 8 :=
    ⟨b.toNat_lt, c.toNat_lt, d.toNat_lt⟩
  have fourth := Nat.shiftLeft_add_eq_or_of_lt d.toNat_lt c.toNat
  have third := Nat.shiftLeft_add_eq_or_of_lt
    (by rw [Nat.shiftLeft_eq]; omega : c.toNat <<< 8 + d.toNat < 2 ^ 16) b.toNat
  have second := Nat.shiftLeft_add_eq_or_of_lt
    (by rw [Nat.shiftLeft_eq, Nat.shiftLeft_eq]; omega :
      b.toNat <<< 16 + (c.toNat <<< 8 + d.toNat) < 2 ^ 24) a.toNat
  rw [UInt32.toNat_or, UInt32.toNat_or, UInt32.toNat_or, shift a 24 (by decide),
    shift b 16 (by decide), shift c 8 (by decide), UInt8.toNat_toUInt32]
  change a.toNat <<< 24 ||| b.toNat <<< 16 ||| c.toNat <<< 8 ||| d.toNat = _
  rw [Nat.or_assoc, Nat.or_assoc, ← fourth, ← third, ← second]
  simp only [Nat.shiftLeft_eq]
  omega

theorem wordAt_eq (inside : index + 4 ≤ message.length) :
    wordAt message index =
      UInt32.ofNat (Sha2.ofBits (((messageBits message).drop (8 * index)).take 32)) := by
  have byte : ∀ place, message.getD (index + place) 0 = (message.drop index).getD place 0 := by
    intro place
    rw [List.getD_eq_getElem?_getD, List.getD_eq_getElem?_getD, List.getElem?_drop]
  have first := byte 0
  have length := @List.length_drop _ index message
  rw [Nat.add_zero] at first
  rw [Sha2.messageBits_drop, wordAt, first, byte, byte, byte]
  generalize message.drop index = rest at length
  rcases rest with _ | ⟨a, _ | ⟨b, _ | ⟨c, _ | ⟨d, rest⟩⟩⟩⟩
  iterate 4 simp at length; omega
  have front : messageBits (a :: b :: c :: d :: rest) =
      (Sha2.bits 8 a.toNat ++ Sha2.bits 8 b.toNat ++ Sha2.bits 8 c.toNat ++
        Sha2.bits 8 d.toNat) ++ messageBits rest := by
    simp only [Sha2.messageBits_cons, List.append_assoc]
  rw [front, List.take_left' (by simp [Sha2.bits_length]), Sha2.ofBits]
  simp only [List.foldl_append, Sha2.foldl_bits, Nat.mod_eq_of_lt (UInt8.toNat_lt _),
    Nat.zero_mul, Nat.zero_add]
  rw [← or_bytes, UInt32.ofNat_toNat]
  rfl

theorem nextWord_eq (enough : 16 ≤ count) :
    nextWord ((List.range count).map (Sha2.schedule block)) = Sha2.schedule block count := by
  have back : ∀ distance, 0 < distance → distance ≤ 16 →
      ((List.range count).map (Sha2.schedule block)).getD (count - distance) 0 =
        Sha2.schedule block (count - distance) := by
    intro distance given near
    rw [List.getD_eq_getElem?_getD, List.getElem?_map, List.getElem?_range (by omega)]
    rfl
  have unfolds : Sha2.schedule block count = _ := Sha2.schedule.eq_1 block count
  rw [unfolds, if_neg (by omega), nextWord, List.length_map, List.length_range]
  dsimp only
  rw [back 16 (by decide) (by decide), back 15 (by decide) (by decide),
    back 7 (by decide) (by decide), back 2 (by decide) (by decide)]
  change _ + Sha2.smallSigma0 _ + _ + Sha2.smallSigma1 _ = _
  ac_rfl

theorem extend_eq (more : Nat) (enough : 16 ≤ count) :
    extend more ((List.range count).map (Sha2.schedule block)) =
      (List.range (count + more)).map (Sha2.schedule block) := by
  induction more generalizing count with
  | zero => rfl
  | succ more ih =>
    have snoc : (List.range count).map (Sha2.schedule block) ++ [Sha2.schedule block count] =
        (List.range (count + 1)).map (Sha2.schedule block) := by
      rw [List.range_succ, List.map_append, List.map_singleton]
    rw [extend, nextWord_eq block enough, snoc, ih (by omega), Nat.add_right_comm, Nat.add_assoc]

theorem schedule_eq (inside : index * 64 + 64 ≤ message.length) :
    schedule message (index * 64) =
      (List.range 64).map (Sha2.schedule (Sha2.block (messageBits message) index)) := by
  have first : (List.range 16).map (fun t => wordAt message (index * 64 + t * 4)) =
      (List.range 16).map (Sha2.schedule (Sha2.block (messageBits message) index)) := by
    refine List.map_congr_left fun t member => ?_
    have small := List.mem_range.mp member
    rw [Sha2.schedule, if_pos small, wordAt_eq (by omega), Sha2.block]
    congr 4
    omega
  rw [schedule, first, extend_eq _ 48 (Nat.le_refl 16)]

theorem roundConstants_eq : roundConstants = (List.range 64).map Sha2.roundConstant := by
  decide +kernel

theorem initialHash_eq : initialHash = Sha2.initialHash.toList := by
  decide +kernel

theorem compress_eq :
    compress hash.toList ((List.range 64).map (Sha2.schedule block)) =
      (Sha2.compress hash block).toList := by
  have rounds : ∀ (times : List Nat) (words : Sha2.Words),
      (times.map fun t => (Sha2.roundConstant t, Sha2.schedule block t)).foldl
          (fun state item => round state item.1 item.2) words.toList =
        (times.foldl (fun words t => Sha2.step words (Sha2.roundConstant t)
          (Sha2.schedule block t)) words).toList := by
    intro times
    induction times with
    | nil => exact fun _ => rfl
    | cons t times ih => exact fun words => ih (Sha2.step words _ _)
  rw [compress, roundConstants_eq, List.zip_map', rounds, Sha2.compress]
  simp [Sha2.Words.toList, UInt32.add_comm]

theorem digest_eq {blocks : List Nat} (inside : ∀ index ∈ blocks, index * 64 + 64 ≤ message.length)
    (hash : Sha2.Words) :
    blocks.foldl (fun hash index => compress hash (schedule message (index * 64))) hash.toList =
      (blocks.foldl (fun hash index => Sha2.compress hash
        (Sha2.block (messageBits message) index)) hash).toList := by
  induction blocks generalizing hash with
  | nil => rfl
  | cons index blocks ih =>
    rw [List.forall_mem_cons] at inside
    rw [List.foldl_cons, List.foldl_cons, schedule_eq inside.1, compress_eq, ih inside.2]

theorem hexWord_eq (word : UInt32) : hexWord word = Sha2.hex word := by
  have digit : ∀ value < 16, (ascii "0123456789abcdef").getD value 0 =
      if value < 10 then UInt8.ofNat (48 + value) else UInt8.ofNat (87 + value) := by
    rw [ascii_eq rfl]
    decide
  have nibble : ∀ count : UInt32, count.toNat < 32 → hexDigit ((word >>> count) &&& 0x0F) =
      if word.toNat / 2 ^ count.toNat % 16 < 10 then
        UInt8.ofNat (48 + word.toNat / 2 ^ count.toNat % 16)
      else UInt8.ofNat (87 + word.toNat / 2 ^ count.toNat % 16) := by
    intro count small
    have value : ((word >>> count) &&& 0x0F).toNat = word.toNat / 2 ^ count.toNat % 16 := by
      rw [UInt32.toNat_and, UInt32.toNat_shiftRight, Nat.mod_eq_of_lt small,
        Nat.shiftRight_eq_div_pow]
      exact Nat.and_two_pow_sub_one_eq_mod _ 4
    rw [hexDigit, value, digit _ (Nat.mod_lt _ (by decide))]
  simp only [hexWord, List.flatMap_cons, List.flatMap_nil]
  rw [nibble (24 + 4) (by decide), nibble 24 (by decide), nibble (16 + 4) (by decide),
    nibble 16 (by decide),
    nibble (8 + 4) (by decide), nibble 8 (by decide), nibble (0 + 4) (by decide),
    nibble 0 (by decide)]
  rfl

end Sha256

/-- The digest is that of the standard in lower-case hexadecimal digits, and the padding
makes whole blocks, of which no other input makes the same. -/
theorem sha256_is_standard (input : Bytes) (short : input.length < 2 ^ 61) :
    sha256 input = (Sha2.digest (messageBits input)).toList.flatMap Sha2.hex ∧
      (Sha256.pad input).length % 64 = 0 ∧
      (∃ zeros < 64, Sha256.padZeros 64 (input ++ [0x80]) =
        input ++ 0x80 :: List.replicate zeros 0) ∧
      ∀ other : Bytes, other.length < 2 ^ 61 → Sha256.pad other = Sha256.pad input →
        other = input := by
  have length : (Sha256.pad input).length = input.length + 1 + Sha256.zeros input + 8 := by
    have eight : (Sha256.lengthBytes (UInt64.ofNat input.length * 8)).length = 8 := rfl
    rw [Sha256.pad_eq, List.length_append, List.length_append, List.length_cons,
      List.length_replicate, eight]
    omega
  have whole : (Sha256.pad input).length % 64 = 0 := by
    rw [length, Sha256.zeros]
    omega
  refine ⟨?_, whole, ⟨Sha256.zeros input, Nat.mod_lt _ (by decide), ?_⟩, fun other small same =>
    Sha256.pad_injective small short same⟩
  · have count : (messageBits (Sha256.pad input)).length / 512 =
        (Sha256.pad input).length / 64 := by
      rw [Sha2.messageBits_length]
      omega
    rw [sha256, Sha256.digest, Sha256.initialHash_eq, Sha256.digest_eq fun index member => ?_,
      Sha2.digest, ← Sha256.messageBits_pad short, count]
    · exact List.flatMap_congr fun word _ => Sha256.hexWord_eq word
    · have below := List.mem_range.mp member
      omega
  · rw [Sha256.padZeros_eq (by omega), List.append_assoc, List.length_append,
      List.length_singleton]
    rfl

theorem abc_is_standard :
    sha256 (ascii "abc") = (Sha2.digest (messageBits (ascii "abc"))).toList.flatMap Sha2.hex :=
  (sha256_is_standard (ascii "abc") (by decide)).1

end Credis
