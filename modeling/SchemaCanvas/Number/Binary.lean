import SchemaCanvas.Number.Word

/-!
# The exact value of a 64-bit float

`Binary` is what a float denotes: a signed multiple of a power of two, an infinity or no number.
Rounding, remainders and printing are decided on it in exact integer arithmetic.

* `Binary.ofFloat` decodes the bits, and `Binary.toFloat` encodes a value that has a float;
* `Binary.whole?` is the integer a float stands for, if it stands for one;
* `Binary.clamp` cuts a float to an integer of a given range;
* `Binary.floor`, `Binary.ceil`, `Binary.trunc` and `Binary.remainder` are exact.
-/

namespace SchemaCanvas

/-- What a 64-bit float denotes; a finite one is `± mantissa * 2 ^ exponent`. -/
inductive Binary where
  | nan
  | infinite (negative : Bool)
  | finite (negative : Bool) (mantissa : Nat) (exponent : Int)
deriving DecidableEq

namespace Binary

/-- Not a number. -/
def notANumber : Float := Float.ofBits 0x7FF8000000000000

/-- Positive or negative infinity. -/
def infinity (negative : Bool) : Float :=
  Float.ofBits (if negative then 0xFFF0000000000000 else 0x7FF0000000000000)

/-- Decode the sign bit, the eleven exponent bits and the fifty-two fraction bits. -/
def ofFloat (f : Float) : Binary :=
  let bits := f.toBits.toNat
  let negative := decide (0x8000000000000000 ≤ bits)
  let field : Nat := (bits >>> 52) % 2048
  let fraction : Nat := bits % 0x10000000000000
  if field = 2047 then
    if fraction = 0 then .infinite negative else .nan
  else if field = 0 then
    .finite negative fraction (-1074)
  else
    .finite negative (0x10000000000000 + fraction) ((field : Int) - 1075)

/-- The bits of `mantissa * 2 ^ exponent`, for a mantissa below `2 ^ 53` and an exponent of at
least `-1074`. -/
def finiteBits (mantissa : Nat) (exponent : Int) : Nat :=
  if mantissa = 0 then 0
  else
    let shift := 52 - mantissa.log2
    let top := exponent - shift
    if -1074 ≤ top then
      ((top + 1074).toNat <<< 52) + (mantissa <<< shift)
    else
      mantissa <<< (exponent + 1074).toNat

/-- The float that denotes a value. -/
def toFloat : Binary → Float
  | nan => notANumber
  | infinite negative => infinity negative
  | finite negative mantissa exponent =>
    Float.ofBits
      (UInt64.ofNat ((if negative then 0x8000000000000000 else 0) + finiteBits mantissa exponent))

/-- An integer with the given sign. -/
def signed (negative : Bool) (n : Nat) : Int := if negative then -n else n

/-- The integer part of `mantissa * 2 ^ exponent`. -/
def wholePart (mantissa : Nat) (exponent : Int) : Nat :=
  if 0 ≤ exponent then mantissa <<< exponent.toNat else mantissa >>> (-exponent).toNat

/-- `mantissa * 2 ^ exponent` is an integer. -/
def isWhole (mantissa : Nat) (exponent : Int) : Bool :=
  0 ≤ exponent || mantissa % (1 <<< (-exponent).toNat) == 0

/-- The integer a value stands for, if it stands for one. -/
def whole? : Binary → Option Int
  | finite negative mantissa exponent =>
    if isWhole mantissa exponent then some (signed negative (wholePart mantissa exponent))
    else none
  | _ => none

/-- A value cut toward zero to an integer between `low` and `high`; no number counts as zero. -/
def clamp (low high : Int) : Binary → Int
  | nan => 0
  | infinite negative => if negative then low else high
  | finite negative mantissa exponent =>
    max low (min high (signed negative (wholePart mantissa exponent)))

/-- A float cut to a natural number of 64 bits. -/
def toIndex (f : Float) : Nat := ((ofFloat f).clamp 0 Word.maxUnsigned).toNat

/-! ### Rounding to integers

The sign of a zero is not kept: every result is shown through `Json.computed`, which has one
zero. -/

/-- Round by a rule for the fractional values; integers, infinities and no number stay. -/
def roundBy (rule : Bool → Nat → Nat) (f : Float) : Float :=
  match ofFloat f with
  | finite negative mantissa exponent =>
    if isWhole mantissa exponent then f
    else Float.ofInt (signed negative (rule negative (wholePart mantissa exponent)))
  | _ => f

/-- The greatest integer not above. -/
def floor : Float → Float := roundBy fun negative n => if negative then n + 1 else n

/-- The least integer not below. -/
def ceil : Float → Float := roundBy fun negative n => if negative then n else n + 1

/-- The integer part. -/
def trunc : Float → Float := roundBy fun _ n => n

/-- The exact remainder of a division whose quotient is cut toward zero. It has the sign of the
dividend. -/
def remainder (x y : Float) : Float :=
  match ofFloat x, ofFloat y with
  | finite negative m e, finite _ n d =>
    if n = 0 then notANumber
    else
      let low := min e d
      let r := (m <<< (e - low).toNat) % (n <<< (d - low).toNat)
      toFloat (finite negative r low)
  | finite .., infinite _ => x
  | _, _ => notANumber

end Binary

end SchemaCanvas
