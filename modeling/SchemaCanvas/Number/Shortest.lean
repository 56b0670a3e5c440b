import SchemaCanvas.Number.Binary

/-!
# The shortest decimal of a float

`Decimal.shortest` gives the fewest digits that read back as the same float, and of those the
nearest to it. The reals that read back form a `Span` around the value; a decimal with `n` digits
is sought on the grid whose step is the place of the `n`-th digit, where only the two neighbours of
the value need to be tried.
-/

namespace SchemaCanvas

/-- A decimal `0.d₁d₂… * 10 ^ point` without trailing zeros. -/
structure Decimal where
  digits : List Char
  point : Int
deriving DecidableEq

/-- Which of two equally near decimals is taken. -/
inductive Tie where
  | toEven
  | up
deriving DecidableEq

/-- The reals nearest to one float: `low`, `value` and `high` over `den`. -/
structure Span where
  low : Nat
  value : Nat
  high : Nat
  den : Nat
  /-- The two ends read back as the float itself. -/
  closed : Bool

namespace Span

/-- The reals that round to `mantissa * 2 ^ exponent`. Below a power of two the floats are twice as
dense, and an end between two floats goes to the even mantissa. -/
def ofBinary (mantissa : Nat) (exponent : Int) : Span :=
  let scale (n : Nat) := if 2 ≤ exponent then n <<< (exponent - 2).toNat else n
  let below := if mantissa = 0x10000000000000 ∧ -1074 < exponent then 1 else 2
  { low := scale (4 * mantissa - below)
    value := scale (4 * mantissa)
    high := scale (4 * mantissa + 2)
    den := if 2 ≤ exponent then 1 else 1 <<< (2 - exponent).toNat
    closed := mantissa % 2 == 0 }

variable (s : Span)

/-- `s.value / s.den` and a power of ten have a common scale: the step of the grid `10 ^ place`. -/
def step (place : Int) : Nat := if 0 ≤ place then Nat.pow 10 place.toNat * s.den else s.den

/-- The factor that brings the ends of the span to the scale of `step`. -/
def factor (place : Int) : Nat := if 0 ≤ place then 1 else Nat.pow 10 (-place).toNat

/-- The grid point `n * 10 ^ place` lies in the span. -/
def contains (place : Int) (n : Nat) : Bool :=
  let x := n * s.step place
  if s.closed then s.low * factor place ≤ x && x ≤ s.high * factor place
  else s.low * factor place < x && x < s.high * factor place

/-- The grid point of `10 ^ place` in the span that is nearest to the value, if there is one. -/
def nearest? (tie : Tie) (place : Int) : Option Nat :=
  let value := s.value * factor place
  let step := s.step place
  let n := value / step
  match s.contains place n, s.contains place (n + 1) with
  | false, false => none
  | true, false => some n
  | false, true => some (n + 1)
  | true, true =>
    if 2 * value < (2 * n + 1) * step then some n
    else if (2 * n + 1) * step < 2 * value then some (n + 1)
    else match tie with
      | .up => some (n + 1)
      | .toEven => some (if n % 2 = 0 then n else n + 1)

/-- The place of the first digit of a fraction below one, counted from `place` downward. -/
def leadingBelow (value den : Nat) : Nat → Int → Int
  | 0, place => place
  | fuel + 1, place =>
    if den ≤ value * 10 then place else leadingBelow (value * 10) den fuel (place - 1)

/-- The place of the first digit of the value. No float has more than 324 places. -/
def leading : Int :=
  if s.den ≤ s.value then (Nat.toDigits 10 (s.value / s.den)).length - 1
  else leadingBelow s.value s.den 324 (-1)

end Span

namespace Decimal

/-- `n * 10 ^ place` without trailing zeros. -/
def ofGrid (n : Nat) (place : Int) : Decimal :=
  let digits := Nat.toDigits 10 n
  ⟨(digits.reverse.dropWhile (· == '0')).reverse, digits.length + place⟩

/-- The shortest decimal that reads back as `mantissa * 2 ^ exponent`. Seventeen digits suffice. -/
def shortest (tie : Tie) (mantissa : Nat) (exponent : Int) : Decimal :=
  let s := Span.ofBinary mantissa exponent
  let first := s.leading
  match (List.range 17).findSome? fun (n : Nat) =>
      (s.nearest? tie (first - n)).map fun x => ofGrid x (first - n) with
  | some d => d
  | none => ofGrid (s.value * Span.factor (first - 17) / s.step (first - 17)) (first - 17)

end Decimal

end SchemaCanvas
