import Credis.ByteString

/-! The C++ library's view of `double`: `std::from_chars`, `snprintf` and the
integer casts, over Lean's `Float`. Nothing in this file refers to the server. -/

namespace Double

open ByteString

def scanMantissa (text : Bytes) : Bytes × Bytes × Bytes :=
  let whole := text.takeWhile isDigit
  match text.dropWhile isDigit with
  | 46 :: tail => (whole, tail.takeWhile isDigit, tail.dropWhile isDigit)
  | tail => (whole, [], tail)

def scanExponent : Bytes → Option Int
  | [] => some 0
  | mark :: digits =>
    if mark = 101 ∨ mark = 69 then
      match digits with
      | 43 :: unsigned => (parseNat unsigned).map fun value => (value : Int)
      | _ => parseInteger digits
    else none

/-- `from_chars` reports a value that overflows, and a nonzero one that
underflows to zero, as out of range. -/
def ofDecimal (mantissa : Nat) (exponent : Int) : Option Float :=
  let value := Float.ofScientific mantissa (decide (exponent < 0)) exponent.natAbs
  if value.isFinite ∧ (mantissa = 0 ∨ value != 0) then some value else none

def parseDecimal (text : Bytes) : Option Float :=
  let (whole, fraction, tail) := scanMantissa text
  if whole = [] ∧ fraction = [] then none
  else (scanExponent tail).bind fun exponent =>
    ofDecimal (digitsValue (whole ++ fraction)) (exponent - fraction.length)

def isNanPayload (byte : UInt8) : Bool :=
  isDigit byte || (65 ≤ byte && byte ≤ 90) || (97 ≤ byte && byte ≤ 122) || byte == 95

def infinity : Float := 1 / 0

def notANumber : Float := 0 / 0

def parseUnsigned (text : Bytes) : Option Float :=
  let lower := toLower text
  if lower = ascii "inf" ∨ lower = ascii "infinity" then some infinity
  else if lower = ascii "nan" then some notANumber
  else if startsWith lower (ascii "nan(") ∧ text.getLast? = some 41 ∧
      ((text.drop 4).dropLast).all isNanPayload then some notANumber
  else parseDecimal text

def parse : Bytes → Option Float
  | 45 :: text => (parseUnsigned text).map fun value => -value
  | text => parseUnsigned text

/-- `static_cast<int64_t>`; outside the range of the type it is undefined, and
x86-64 yields the smallest value. -/
def toInt64 (value : Float) : Int :=
  match value.toModel.unpack with
  | .finite sign mantissa exponent _ =>
    let truncated := Float.Model.UnpackedFloat.roundToInt sign mantissa exponent
    if -(2 ^ 63) ≤ truncated ∧ truncated < 2 ^ 63 then truncated else -(2 ^ 63)
  | .zero _ => 0
  | _ => -(2 ^ 63)

/-! Printing. A finite double is `numerator / denominator` exactly. -/

structure Magnitude where
  negative : Bool
  numerator : Nat
  denominator : Nat

inductive Shape
  | nan
  | infinite (negative : Bool)
  | finite (magnitude : Magnitude)

def isNegative : Float.Model.UnpackedFloat.Sign → Bool
  | .negative => true
  | .positive => false

def shape (value : Float) : Shape :=
  match value.toModel.unpack with
  | .notANumber => .nan
  | .infinity sign => .infinite (isNegative sign)
  | .zero sign => .finite ⟨isNegative sign, 0, 1⟩
  | .finite sign mantissa exponent _ =>
    .finite ⟨isNegative sign, mantissa * 2 ^ exponent.toNat, 2 ^ (-exponent).toNat⟩

def roundQuotient (numerator denominator : Nat) : Nat :=
  let quotient := numerator / denominator
  let twice := 2 * (numerator % denominator)
  if denominator < twice ∨ (twice = denominator ∧ quotient % 2 = 1) then quotient + 1
  else quotient

def scaled (magnitude : Magnitude) (places : Int) : Nat :=
  roundQuotient (magnitude.numerator * 10 ^ places.toNat)
    (magnitude.denominator * 10 ^ (-places).toNat)

def padLeft (width : Nat) (digits : Bytes) : Bytes :=
  List.replicate (width - digits.length) 48 ++ digits

def signText (negative : Bool) : Bytes := if negative then [45] else []

def withPoint (whole fraction : Bytes) : Bytes :=
  if fraction = [] then whole else whole ++ 46 :: fraction

def formatFixed (places : Nat) (value : Float) : Bytes :=
  match shape value with
  | .nan => ascii "nan"
  | .infinite negative => signText negative ++ ascii "inf"
  | .finite magnitude =>
    let digits := padLeft (places + 1) (natText (scaled magnitude places))
    signText magnitude.negative ++
      withPoint (digits.take (digits.length - places)) (digits.drop (digits.length - places))

def decimalExponent (magnitude : Magnitude) : Int :=
  if magnitude.denominator ≤ magnitude.numerator then
    (natText (magnitude.numerator / magnitude.denominator)).length - 1
  else
    -((natText ((magnitude.denominator - 1) / magnitude.numerator)).length : Int)

/-- The significant digits and the exponent that `%e` with that precision
prints; rounding up to a power of ten moves the exponent. -/
def significant (precision : Nat) (magnitude : Magnitude) : Bytes × Int :=
  if magnitude.numerator = 0 then (List.replicate precision 48, 0)
  else
    let exponent := decimalExponent magnitude
    let digits := natText (scaled magnitude (precision - 1 - exponent))
    if precision < digits.length then (digits.dropLast, exponent + 1) else (digits, exponent)

def dropTrailingZeros (digits : Bytes) : Bytes :=
  (digits.reverse.dropWhile (· == 48)).reverse

def exponentText (exponent : Int) : Bytes :=
  101 :: (if exponent < 0 then 45 else 43) :: padLeft 2 (natText exponent.natAbs)

/-- `%.<precision>g`: trailing zeros are dropped, and the exponent form is used
below `1e-4` and from the precision on. -/
def formatGeneral (precision : Nat) (value : Float) : Bytes :=
  match shape value with
  | .nan => ascii "nan"
  | .infinite negative => signText negative ++ ascii "inf"
  | .finite magnitude =>
    let (digits, exponent) := significant precision magnitude
    signText magnitude.negative ++
      if exponent < -4 ∨ (precision : Int) ≤ exponent then
        withPoint (digits.take 1) (dropTrailingZeros (digits.drop 1)) ++ exponentText exponent
      else if exponent < 0 then
        withPoint [48]
          (List.replicate (-exponent - 1).toNat 48 ++ dropTrailingZeros digits)
      else
        let whole := exponent.toNat + 1
        withPoint (digits.take whole) (dropTrailingZeros (digits.drop whole))

end Double
