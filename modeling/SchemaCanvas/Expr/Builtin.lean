import SchemaCanvas.Expr.EvalError
import SchemaCanvas.Expr.Value
import SchemaCanvas.Json.Printer

/-!
# Functions of the expression language

Only the functions listed here can be called by name. `Builtin.apply` is total: arguments are
converted, and what has no number becomes null.
-/

namespace SchemaCanvas

/-- The argument at a position; missing arguments are undefined. -/
def argument (args : List Value) (i : Nat) : Value := args[i]?.join

/-- A function that can be called by name. -/
inductive Builtin where
  | abs | ceil | floor | round | trunc | sqrt | sign | pow | max | min
  | string | number | boolean | parseInt | parseFloat | isNaN | isArray | stringify
  | keys | values
deriving DecidableEq

namespace Builtin

/-- The name of a function. -/
def name : Builtin → String
  | abs => "Math.abs" | ceil => "Math.ceil" | floor => "Math.floor" | round => "Math.round"
  | trunc => "Math.trunc" | sqrt => "Math.sqrt" | sign => "Math.sign" | pow => "Math.pow"
  | max => "Math.max" | min => "Math.min" | string => "String" | number => "Number"
  | boolean => "Boolean" | parseInt => "parseInt" | parseFloat => "parseFloat"
  | isNaN => "isNaN" | isArray => "Array.isArray" | stringify => "JSON.stringify"
  | keys => "Object.keys" | values => "Object.values"

/-- All functions. -/
def all : List Builtin :=
  [abs, ceil, floor, round, trunc, sqrt, sign, pow, max, min, string, number, boolean, parseInt,
    parseFloat, isNaN, isArray, stringify, keys, values]

/-- The function of a name. -/
def ofName? (s : String) : Option Builtin := all.find? fun f => f.name = s

@[simp]
theorem ofName?_name (f : Builtin) : ofName? f.name = some f := by cases f <;> rfl

/-- The names in which functions and constants are grouped. -/
def groups : List String := ["Math", "JSON", "Array", "Object"]

/-- The constant of a name. -/
def constant? (s : String) : Option Json :=
  if s = "Math.PI" then some (Json.ofFloat 3.141592653589793)
  else if s = "Math.E" then some (Json.ofFloat 2.718281828459045)
  else none

/-! ### Numbers in text -/

/-- The value of a digit in a radix up to 36. -/
def digitIn? (radix : Nat) (c : Char) : Option Nat :=
  let n :=
    if '0' ≤ c ∧ c ≤ '9' then some (c.toNat - '0'.toNat)
    else if 'a' ≤ c ∧ c ≤ 'z' then some (c.toNat - 'a'.toNat + 10)
    else if 'A' ≤ c ∧ c ≤ 'Z' then some (c.toNat - 'A'.toNat + 10)
    else none
  n.filter (· < radix)

/-- The leading digits of a radix. -/
def digitsIn (radix : Nat) : List Char → List Nat
  | [] => []
  | c :: rest =>
    match digitIn? radix c with
    | some d => d :: digitsIn radix rest
    | none => []

/-- The integer at the start of a text; one that needs more than 64 bits is no number. -/
def leadingInteger (cs : List Char) (radix : Nat) : Float :=
  let radix := if radix = 0 then 10 else radix
  if radix < 2 ∨ 36 < radix then Binary.notANumber
  else
    let (negative, rest) := Numeral.spanSign (Text.trimLeft cs)
    let digits := digitsIn radix rest
    let n := digits.foldl (fun n d => n * radix + d) 0
    if digits.isEmpty ∨ Word.maxSigned < n then Binary.notANumber
    else if negative then -Float.ofNat n
    else Float.ofNat n

/-- Leading digits with at most one point. -/
def pointedDigits (seenPoint : Bool) : List Char → List Char
  | [] => []
  | c :: rest =>
    if c.isDigit then c :: pointedDigits seenPoint rest
    else if c = '.' && !seenPoint then c :: pointedDigits true rest
    else []

/-- The decimal at the start of a text, without an exponent. -/
def leadingDecimal (cs : List Char) : Float :=
  let cs := Text.trimLeft cs
  let numeral := match cs with
    | '-' :: rest => '-' :: pointedDigits false rest
    | '+' :: rest => '+' :: pointedDigits false rest
    | cs => pointedDigits false cs
  (Numeral.read? numeral).getD Binary.notANumber

/-! ### Application -/

/-- The sign of a float as a float. -/
def signOf (x : Float) : Float := if 0 < x then 1 else if x < 0 then -1 else x

/-- The greater of two floats; no number is passed over. -/
def greater (x y : Float) : Float := if y.isNaN then x else if x < y then y else x

/-- The smaller of two floats; no number is passed over. -/
def smaller (x y : Float) : Float := if y.isNaN then x else if y < x then y else x

/-- The names of an object, or the positions of a list. -/
def keysOf : Value → List Json
  | some (.obj fields) => fields.map fun e => .str e.1
  | some (.arr items) => (List.range items.length).map fun i => .str (toString i)
  | _ => []

/-- The values of an object or a list. -/
def valuesOf : Value → List Json
  | some (.obj fields) => fields.map fun e => e.2
  | some (.arr items) => items
  | _ => []

/-- The value of a call. -/
def apply (f : Builtin) (args : List Value) : Value :=
  let first := argument args 0
  let x := first.toFloat
  match f with
  | abs => some (Json.computed x.abs)
  | ceil => some (Json.computed (Binary.ceil x))
  | floor => some (Json.computed (Binary.floor x))
  | round => some (Json.computed (Binary.floor (x + 0.5)))
  | trunc => some (Json.computed (Binary.trunc x))
  | sqrt => some (Json.computed x.sqrt)
  | sign => some (Json.computed (signOf x))
  | pow => some (Json.computed (x.pow (argument args 1).toFloat))
  | max => some (Json.computed ((args.map Value.toFloat).foldl greater (Binary.infinity true)))
  | min => some (Json.computed ((args.map Value.toFloat).foldl smaller (Binary.infinity false)))
  | string => some (.str (if args.isEmpty then "" else first.display))
  | number => some (Json.computed x)
  | boolean => some (.bool first.isTruthy)
  | parseInt =>
    let radix := match argument args 1 with
      | none => 10
      | r => ((Binary.ofFloat r.toFloat).clamp 0 Word.maxHalf).toNat
    some (Json.computed (leadingInteger first.display.toList radix))
  | parseFloat => some (Json.computed (leadingDecimal first.display.toList))
  | isNaN => some (.bool x.isNaN)
  | isArray => some (.bool (match first with | some (.arr _) => true | _ => false))
  | stringify => first.map fun v => .str v.compact
  | keys => some (.arr (keysOf first))
  | values => some (.arr (valuesOf first))

/-- Call a function by name. -/
def call (name : String) (args : List Value) : Except EvalError Value :=
  match ofName? name with
  | some f => .ok (f.apply args)
  | none => .error (.notCallable name)

end Builtin

end SchemaCanvas
