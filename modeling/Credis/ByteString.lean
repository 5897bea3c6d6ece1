import Mathlib.Algebra.Order.Ring.Int
import Mathlib.Data.List.Basic

/-! Byte strings with ASCII literals, letter case, decimal numerals and the
wrapping of machine integers. Nothing in this file refers to the server. -/

namespace ByteString

variable {right left text : Bytes} {value : Int}

abbrev Bytes := List UInt8

instance : LawfulBEq Bytes := List.instLawfulBEq

def ascii (text : String) : Bytes :=
  text.toList.map fun letter => UInt8.ofNat letter.toNat

def crlf : Bytes := [13, 10]

/-- `std::toupper` in the C locale moves the letters `a` to `z` only. -/
def toUpperByte (byte : UInt8) : UInt8 :=
  if 97 ≤ byte ∧ byte ≤ 122 then byte - 32 else byte

def toLowerByte (byte : UInt8) : UInt8 :=
  if 65 ≤ byte ∧ byte ≤ 90 then byte + 32 else byte

def toUpper (text : Bytes) : Bytes := text.map toUpperByte

def toLower (text : Bytes) : Bytes := text.map toLowerByte

def startsWith (text lead : Bytes) : Bool := lead.isPrefixOf text

/-! Machine integers are mathematical integers that wrap at their width. -/

def wrap32 (value : Int) : Int := Int.bmod value (2 ^ 32)

def wrap64 (value : Int) : Int := Int.bmod value (2 ^ 64)

def int64Max : Int := 2 ^ 63 - 1

/-! Decimal numerals: `std::to_string` and `std::from_chars`. -/

def natText (value : Nat) : Bytes :=
  (Nat.toDigits 10 value).map fun digit => UInt8.ofNat digit.toNat

def intText : Int → Bytes
  | .ofNat value => natText value
  | .negSucc value => 45 :: natText (value + 1)

def isDigit (byte : UInt8) : Bool := 48 ≤ byte && byte ≤ 57

def digitValue (byte : UInt8) : Nat := byte.toNat - 48

def digitsValue (digits : Bytes) : Nat :=
  digits.foldl (fun total byte => total * 10 + digitValue byte) 0

def parseNat (text : Bytes) : Option Nat :=
  if text ≠ [] ∧ text.all isDigit then some (digitsValue text) else none

/-- A whole text read by `from_chars` for a signed type: no sign but `-`. -/
def parseInteger : Bytes → Option Int
  | 45 :: digits => (parseNat digits).map fun value => -(value : Int)
  | text => (parseNat text).map fun value => (value : Int)

def parseInt64 (text : Bytes) : Option Int :=
  (parseInteger text).filter fun value => decide (-(2 ^ 63) ≤ value ∧ value < 2 ^ 63)

def parseUInt64 (text : Bytes) : Option Nat :=
  (parseNat text).filter fun value => decide (value < 2 ^ 64)

theorem wrap64_range (value : Int) : -(2 ^ 63) ≤ wrap64 value ∧ wrap64 value < 2 ^ 63 := by
  unfold wrap64
  have low := @Int.le_bmod value (2 ^ 64) (by decide)
  have high := @Int.bmod_lt value (2 ^ 64) (by decide)
  omega

theorem wrap64_of_range (low : -(2 ^ 63) ≤ value) (high : value < 2 ^ 63) :
    wrap64 value = value := by
  unfold wrap64
  exact Int.bmod_eq_of_le (by omega) (by omega)

/-- A whole decimal numeral and the number it stands for. -/
inductive IsNumeral : Bytes → Int → Prop
  | positive {digits : Bytes} : digits ≠ [] → digits.all isDigit = true →
      IsNumeral digits (digitsValue digits)
  | negative {digits : Bytes} : digits ≠ [] → digits.all isDigit = true →
      IsNumeral (45 :: digits) (-(digitsValue digits : Int))

theorem parseInteger_eq_some : parseInteger text = some value ↔ IsNumeral text value := by
  constructor
  · intro parsed
    unfold parseInteger at parsed
    split at parsed
    all_goals
      obtain ⟨number, read, rfl⟩ := Option.map_eq_some_iff.mp parsed
      unfold parseNat at read
      split at read <;> cases read
      rename_i decimal
    · exact .negative decimal.1 decimal.2
    · exact .positive decimal.1 decimal.2
  · rintro (⟨given, digits⟩ | ⟨given, digits⟩)
    · unfold parseInteger
      split
      · exact absurd (List.all_eq_true.mp digits 45 (by simp)) (by decide)
      · rw [parseNat, if_pos ⟨given, digits⟩]
        rfl
    · rw [parseInteger, parseNat, if_pos ⟨given, digits⟩]
      rfl

theorem parseInt64_eq_some : parseInt64 text = some value ↔
    IsNumeral text value ∧ -(2 ^ 63) ≤ value ∧ value < 2 ^ 63 := by
  rw [parseInt64, Option.filter_eq_some_iff, parseInteger_eq_some, decide_eq_true_eq]

/-- The bytes of ASCII letters. A literal is spelled out in this form before it is
computed with: the kernel is slow on the UTF-8 of strings. -/
def asciiBytes (letters : List Char) : Bytes := letters.map fun letter => UInt8.ofNat letter.toNat

theorem ascii_eq {text : String} {letters : List Char} (spelled : text = String.ofList letters) :
    ascii text = asciiBytes letters := by
  rw [spelled, ascii, String.toList_ofList, asciiBytes]

theorem toDigits_bounds {value : Nat} {digit : Char} (member : digit ∈ Nat.toDigits 10 value) :
    48 ≤ digit.toNat ∧ digit.toNat ≤ 57 := by
  have decimal := Nat.isDigit_of_mem_toDigits (by decide) (by decide) member
  simp only [Char.isDigit, Bool.and_eq_true, decide_eq_true_eq] at decimal
  exact decimal

theorem natText_digits (value : Nat) : (natText value).all isDigit = true := by
  rw [List.all_eq_true]
  intro byte member
  obtain ⟨digit, digitMember, rfl⟩ := List.mem_map.mp member
  have bounds := toDigits_bounds digitMember
  simp only [isDigit, Bool.and_eq_true, decide_eq_true_eq, UInt8.le_iff_toNat_le,
    UInt8.toNat_ofNat', UInt8.reduceToNat]
  omega

theorem natText_ne_nil (value : Nat) : natText value ≠ [] := by
  simp [natText]

theorem natText_value (value : Nat) : digitsValue (natText value) = value := by
  have precise : Nat.ofDigitChars 10 (Nat.toDigits 10 value) 0 = value :=
    Nat.ofDigitChars_ten_toDigits
  rw [Nat.ofDigitChars_eq_foldl] at precise
  rw [digitsValue, natText, List.foldl_map]
  refine Eq.trans ?_ precise
  apply List.foldl_ext
  intro total digit member
  have bounds := toDigits_bounds member
  have small : digit.toNat % 256 = digit.toNat := by omega
  simp only [digitValue, UInt8.toNat_ofNat', small, Char.reduceToNat]
  omega

def Apart (left right : Bytes) : Prop := ¬ left <+: right ∧ ¬ right <+: left

instance (left right : Bytes) : Decidable (Apart left right) :=
  inferInstanceAs (Decidable (_ ∧ _))

namespace Apart

theorem symm (apart : Apart left right) : Apart right left :=
  ⟨apart.2, apart.1⟩

theorem append (apart : Apart left right) (rest : Bytes) : Apart left (right ++ rest) := by
  constructor
  · intro lead
    rcases List.prefix_or_prefix_of_prefix lead (List.prefix_append right rest) with short | long
    · exact apart.1 short
    · exact apart.2 long
  · intro lead
    exact apart.2 ((List.prefix_append right rest).trans lead)

theorem extend (apart : Apart left right) (lead : left <+: text) : Apart text right := by
  obtain ⟨rest, rfl⟩ := lead
  exact (apart.symm.append rest).symm

theorem append_ne (apart : Apart left right) (first second : Bytes) :
    left ++ first ≠ right ++ second := by
  intro same
  have lead : left <+: right ++ second := ⟨first, same⟩
  exact (apart.append second).1 lead

theorem of_length (lengths : left.length = right.length) (different : left ≠ right) :
    Apart left right :=
  ⟨fun lead => different (lead.eq_of_length lengths),
    fun lead => different (lead.eq_of_length lengths.symm).symm⟩

end Apart

/-! Where a number begins. -/

def BeginsNumber (text : Bytes) : Prop :=
  ∃ byte rest, text = byte :: rest ∧ (byte = 45 ∨ isDigit byte = true)

theorem BeginsNumber.append (begins : BeginsNumber text) (rest : Bytes) :
    BeginsNumber (text ++ rest) := by
  obtain ⟨byte, others, rfl, kind⟩ := begins
  exact ⟨byte, others ++ rest, rfl, kind⟩

theorem natText_beginsNumber (value : Nat) : BeginsNumber (natText value) := by
  have digits := natText_digits value
  cases text : natText value with
  | nil => exact absurd text (natText_ne_nil value)
  | cons byte rest =>
    rw [text, List.all_cons, Bool.and_eq_true] at digits
    exact ⟨byte, rest, rfl, .inr digits.1⟩

theorem intText_beginsNumber (value : Int) : BeginsNumber (intText value) := by
  cases value with
  | ofNat value => exact natText_beginsNumber value
  | negSucc value => exact ⟨45, natText (value + 1), rfl, .inl rfl⟩

theorem parseInt64_beginsNumber (parsed : parseInt64 text = some value) : BeginsNumber text := by
  obtain ⟨whole, -⟩ := Option.filter_eq_some_iff.mp parsed
  cases text with
  | nil => simp [parseInteger, parseNat] at whole
  | cons byte rest =>
    refine ⟨byte, rest, rfl, ?_⟩
    by_cases sign : byte = 45
    · exact .inl sign
    right
    have digits : (byte :: rest).all isDigit = true := by
      by_contra other
      simp [parseInteger, parseNat, sign, Bool.eq_false_iff.mpr other] at whole
    rw [List.all_cons, Bool.and_eq_true] at digits
    exact digits.1

end ByteString
