import SchemaCanvas.Number.Shortest

/-!
# Written numbers

A `FloatStyle` holds the decisions of one way to write floats; the digits themselves are those of
`Decimal.shortest`. Three styles are in use:

* `FloatStyle.json` in JSON text: positional for exponents from `-5` to `15`, with `.0` on integers;
* `FloatStyle.source` where a token of an expression is quoted: positional from `-4` to `15`;
* `FloatStyle.plain` in text: always positional.

`fixed` writes a given count of decimal places.
-/

namespace SchemaCanvas

/-- How floats are written. -/
structure FloatStyle where
  /-- Least and greatest exponent of the first digit that is written without an exponent. -/
  positional : Option (Int × Int)
  /-- What follows the digits of a positional integer. -/
  wholeSuffix : String
  /-- A positive exponent is written with its sign. -/
  plusSign : Bool
  tie : Tie

namespace FloatStyle

/-- Floats in JSON text. -/
def json : FloatStyle := ⟨some (-5, 15), ".0", true, .toEven⟩

/-- Floats in a quoted token. -/
def source : FloatStyle := ⟨some (-4, 15), ".0", false, .up⟩

/-- Floats in text, without an exponent. -/
def plain : FloatStyle := ⟨none, "", false, .up⟩

/-- An exponent of the first digit that is written positionally. -/
def isPositional (style : FloatStyle) (exponent : Int) : Bool :=
  match style.positional with
  | some (least, greatest) => least ≤ exponent && exponent ≤ greatest
  | none => true

/-- Digits around a decimal point. -/
def positionalText (style : FloatStyle) (d : Decimal) : String :=
  if d.point ≤ 0 then
    "0." ++ String.ofList (List.replicate (-d.point).toNat '0' ++ d.digits)
  else if d.digits.length ≤ d.point.toNat then
    String.ofList (d.digits ++ List.replicate (d.point.toNat - d.digits.length) '0')
      ++ style.wholeSuffix
  else
    String.ofList (d.digits.take d.point.toNat) ++ "." ++
      String.ofList (d.digits.drop d.point.toNat)

/-- One digit, the others behind a point, and the exponent of the first. -/
def scientificText (style : FloatStyle) (d : Decimal) : String :=
  let exponent := d.point - 1
  let sign := if style.plusSign && 0 ≤ exponent then "+" else ""
  let fraction := if d.digits.length ≤ 1 then "" else "." ++ String.ofList (d.digits.drop 1)
  String.ofList (d.digits.take 1) ++ fraction ++ "e" ++ sign ++ toString exponent

/-- A finite positive decimal. -/
def decimalText (style : FloatStyle) (d : Decimal) : String :=
  if style.isPositional (d.point - 1) then style.positionalText d else style.scientificText d

/-- A float in a style. -/
def write (style : FloatStyle) (f : Float) : String :=
  match Binary.ofFloat f with
  | .nan => "NaN"
  | .infinite negative => if negative then "-inf" else "inf"
  | .finite negative mantissa exponent =>
    let sign := if negative then "-" else ""
    if mantissa = 0 then sign ++ "0" ++ style.wholeSuffix
    else sign ++ style.decimalText (Decimal.shortest style.tie mantissa exponent)

end FloatStyle

namespace Binary

/-- A quotient rounded to the nearest integer; a half goes to the even neighbour. -/
def divHalfEven (num den : Nat) : Nat :=
  let q := num / den
  let r := num % den
  if 2 * r < den then q
  else if den < 2 * r then q + 1
  else if q % 2 = 0 then q else q + 1

/-- The exact value rounded to a count of decimal places. A negative value keeps its sign, also
where it rounds to zero. -/
def fixed (places : Nat) : Binary → String
  | nan => "NaN"
  | infinite negative => if negative then "-inf" else "inf"
  | finite negative mantissa exponent =>
    let num := (mantissa <<< exponent.toNat) * Nat.pow 10 places
    let n := divHalfEven num (1 <<< (-exponent).toNat)
    let digits := Nat.toDigits 10 n
    let padded := List.replicate (places + 1 - digits.length) '0' ++ digits
    let whole := padded.take (padded.length - places)
    let fraction := padded.drop (padded.length - places)
    (if negative then "-" else "") ++ String.ofList whole ++
      (if places = 0 then "" else "." ++ String.ofList fraction)

end Binary

end SchemaCanvas
