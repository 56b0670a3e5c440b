import SchemaCanvas.Json.Basic
import SchemaCanvas.Number.Numeral
import SchemaCanvas.Number.Text
import SchemaCanvas.Text.Blank

/-!
# Values of expressions

A `Value` is a JSON value or undefined. An absent entry and an explicit `null` stay apart, which
matters to `??`, to equality and to text substitution.

* `Value.isTruthy`, `Value.toFloat` and `Value.display` convert to a truth value, a number and text;
* `Value.text` is `Value.display` with nothing in place of null and undefined;
* `Value.strictEq` and `Value.looseEq` are the two equalities.
-/

namespace SchemaCanvas

/-- The text of a float: an integer below `10 ^ 21` as an integer of 64 bits, any other finite float
in full, without an exponent. -/
def floatText (f : Float) : String :=
  match Binary.ofFloat f with
  | .nan => "NaN"
  | .infinite negative => if negative then "-Infinity" else "Infinity"
  | b =>
    match b.whole? with
    | some n =>
      if n.natAbs < Nat.pow 10 21 then toString (b.clamp Word.minSigned Word.maxSigned)
      else FloatStyle.plain.write f
    | none => FloatStyle.plain.write f

/-- The float that a text stands for. Blank text is zero. -/
def textToFloat (s : String) : Float :=
  let cs := Text.trimmed s.toList
  if cs.isEmpty then 0 else (Numeral.read? cs).getD Binary.notANumber

namespace Json

/-- A value as a truth value: null, false, zero and the empty text are false. -/
def isTruthy : Json → Bool
  | null => false
  | bool b => b
  | num n => n.toFloat != 0
  | str s => !s.isEmpty
  | arr _ | obj _ => true

/-- A value as a number. A list of one item counts as its item, other filled lists and objects are
no number. -/
def toFloat : Json → Float
  | null => 0
  | bool b => if b then 1 else 0
  | num n => n.toFloat
  | str s => textToFloat s
  | arr [] => 0
  | arr [v] => toFloat v
  | arr _ | obj _ => Binary.notANumber

/-- The text of a number. -/
def numberText (n : Number) : String :=
  match n.toInt? with
  | some i => toString i
  | none => floatText n.toFloat

mutual

/-- A value as text. The items of a list stand between commas, and its nulls are empty. -/
def display : Json → String
  | null => "null"
  | bool b => if b then "true" else "false"
  | num n => numberText n
  | str s => s
  | arr items => ",".intercalate (displayItems items)
  | obj _ => "[object Object]"

/-- The texts of list items. -/
def displayItems : List Json → List String
  | [] => []
  | v :: rest => (match v with | null => "" | v => display v) :: displayItems rest

end

end Json

/-- A value that an expression can have; `none` is undefined. -/
abbrev Value := Option Json

namespace Value

/-- Null or undefined. -/
def isNullish : Value → Bool
  | none | some .null => true
  | _ => false

/-- A value as a truth value. -/
def isTruthy : Value → Bool
  | none => false
  | some v => v.isTruthy

/-- A value as a number. -/
def toFloat : Value → Float
  | none => Binary.notANumber
  | some v => v.toFloat

/-- A value as text. -/
def display : Value → String
  | none => "undefined"
  | some v => v.display

/-- A value as part of a text, where null and undefined leave nothing. -/
def text : Value → String
  | none | some .null => ""
  | some v => v.display

/-- The kind of a value. -/
def typeName : Value → String
  | none => "undefined"
  | some .null => "null"
  | some (.bool _) => "boolean"
  | some (.num _) => "number"
  | some (.str _) => "string"
  | some (.arr _) => "array"
  | some (.obj _) => "object"

/-- Equality without conversion. Numbers are compared as floats. -/
def strictEq : Value → Value → Bool
  | none, none => true
  | some (.num m), some (.num n) => m.toFloat == n.toFloat
  | some a, some b => a.same b
  | _, _ => false

/-- A number faces a text, or one side is a truth value: these are compared as numbers. -/
def comparesAsNumbers : Value → Value → Bool
  | some (.num _), some (.str _) => true
  | some (.str _), some (.num _) => true
  | some (.bool _), _ => true
  | _, some (.bool _) => true
  | _, _ => false

/-- Equality with conversion. Null and undefined are equal to each other only. -/
def looseEq (a b : Value) : Bool :=
  if a.isNullish || b.isNullish then a.isNullish && b.isNullish
  else if comparesAsNumbers a b then a.toFloat == b.toFloat
  else strictEq a b

end Value

end SchemaCanvas
