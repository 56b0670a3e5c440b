import SchemaCanvas.Number.Binary

/-!
# Reading numerals

A numeral in text is a sign, decimal digits with at most one point among, before or behind them,
and an exponent; `inf`, `infinity` and `nan` are numerals too, in any case. `Numeral.read?` gives
the nearest float, an infinity where there is none.
-/

namespace SchemaCanvas.Numeral

/-- The value of a decimal digit. -/
def digit (c : Char) : Nat := c.toNat - '0'.toNat

/-- The number written by decimal digits. -/
def ofDigits (cs : List Char) : Nat := cs.foldl (fun n c => n * 10 + digit c) 0

/-- The leading decimal digits, and the rest. -/
def spanDigits (cs : List Char) : List Char × List Char :=
  (cs.takeWhile Char.isDigit, cs.dropWhile Char.isDigit)

/-- A sign, and what follows it. -/
def spanSign : List Char → Bool × List Char
  | '-' :: rest => (true, rest)
  | '+' :: rest => (false, rest)
  | cs => (false, cs)

/-- The nearest float to `n * 10 ^ exponent`. -/
def scaled (n : Nat) (exponent : Int) : Float :=
  Float.ofScientific n (exponent < 0) exponent.natAbs

/-- The exponent part of a numeral; a numeral without one has exponent zero. -/
def exponent? : List Char → Option Int
  | [] => some 0
  | c :: rest =>
    if c = 'e' ∨ c = 'E' then
      let (negative, digits) := spanSign rest
      if digits.isEmpty || !digits.all Char.isDigit then none
      else some (Binary.signed negative (ofDigits digits))
    else none

/-- A numeral without its sign. -/
def unsigned? (cs : List Char) : Option Float :=
  let lower := cs.map Char.toLower
  if lower = "inf".toList ∨ lower = "infinity".toList then some (Binary.infinity false)
  else if lower = "nan".toList then some Binary.notANumber
  else
    let (whole, rest) := spanDigits cs
    let (fraction, rest) := match rest with
      | '.' :: r => spanDigits r
      | r => ([], r)
    if whole.isEmpty && fraction.isEmpty then none
    else (exponent? rest).map fun e =>
      scaled (ofDigits (whole ++ fraction)) (e - fraction.length)

/-- The float that a numeral stands for. -/
def read? (cs : List Char) : Option Float :=
  let (negative, rest) := spanSign cs
  (unsigned? rest).map fun f => if negative then -f else f

/-- A natural number of 64 bits, with an optional plus sign. -/
def readIndex? (cs : List Char) : Option Nat :=
  let digits := match cs with
    | '+' :: rest => rest
    | cs => cs
  if digits.isEmpty || !digits.all Char.isDigit then none
  else
    let n := ofDigits digits
    if n ≤ Word.maxUnsigned then some n else none

end SchemaCanvas.Numeral
