import SchemaCanvas.Expr.Builtin
import SchemaCanvas.Text.Case
import SchemaCanvas.Text.Search

/-!
# Methods of values

`Json.callMethod` calls a method of a text, a list, a number or a truth value. Positions count
characters in texts and items in lists. Methods that take a function are no part of this table.
-/

namespace SchemaCanvas

/-! ### Ranges -/

/-- An end of a range of `length` positions. A negative number counts from the end, and every end
is cut to the range. -/
def sliceEnd (length fallback : Nat) : Value → Nat
  | none => fallback
  | some v =>
    let n := v.toFloat
    if n.isNaN then 0
    else if n < 0 then Binary.toIndex (Float.ofNat length + n)
    else min (Binary.toIndex n) length

/-- The start and the end of a range; a range that ends before it starts is empty. -/
def sliceBounds (length : Nat) (start stop : Value) : Nat × Nat :=
  let s := sliceEnd length 0 start
  let e := sliceEnd length length stop
  if e < s then (s, s) else (s, e)

/-- The part of a list between two positions. -/
def between {α : Type} (bounds : Nat × Nat) (items : List α) : List α :=
  (items.drop bounds.1).take (bounds.2 - bounds.1)

/-- An end of a range where negative numbers count as zero. -/
def substringEnd (length fallback : Nat) : Value → Nat
  | none => fallback
  | some v => let n := v.toFloat; if n.isNaN || n < 0 then 0 else min (Binary.toIndex n) length

/-- The start and the end of a range given by its two ends in any order. -/
def substringBounds (length : Nat) (start stop : Value) : Nat × Nat :=
  let a := substringEnd length 0 start
  let b := substringEnd length length stop
  (min a b, max a b)

/-! ### Texts -/

/-- A method of texts. -/
inductive TextMethod where
  | toUpperCase | toLowerCase | trim | toString | includes | startsWith | endsWith | indexOf
  | charAt | slice | substring | split | replace | padStart
deriving DecidableEq

namespace TextMethod

/-- The name of a method. -/
def name : TextMethod → String
  | toUpperCase => "toUpperCase" | toLowerCase => "toLowerCase" | trim => "trim"
  | toString => "toString" | includes => "includes" | startsWith => "startsWith"
  | endsWith => "endsWith" | indexOf => "indexOf" | charAt => "charAt" | slice => "slice"
  | substring => "substring" | split => "split" | replace => "replace" | padStart => "padStart"

/-- All methods of texts. -/
def all : List TextMethod :=
  [toUpperCase, toLowerCase, trim, toString, includes, startsWith, endsWith, indexOf, charAt,
    slice, substring, split, replace, padStart]

/-- The method of a name. -/
def ofName? (s : String) : Option TextMethod := all.find? fun m => m.name = s

@[simp]
theorem ofName?_name (m : TextMethod) : ofName? m.name = some m := by cases m <;> rfl

/-- A position, or `-1`. -/
def positionOrNone : Option Nat → Json
  | some i => Json.ofNat i
  | none => Json.ofInt (-1)

/-- The character at a position. -/
def charAtText (cs : List Char) (i : Value) : List Char :=
  let n := i.toFloat
  let n := if n.isNaN then 0 else n
  if 0 ≤ n then (cs[Binary.toIndex n]?).toList else []

/-- The pieces between the occurrences of a separator; without one, the whole text. -/
def pieces (s : String) : Value → List Json
  | none => [.str s]
  | some sep =>
    (Text.split sep.display.toList s.toList).map fun piece => .str (String.ofList piece)

/-- `count` characters of a text repeated over and over. -/
def cycled (fill : List Char) (count : Nat) : List Char :=
  (List.replicate (count / fill.length + 1) fill).flatten.take count

/-- A text filled up from the left to a width. -/
def padded (s : String) (width fill : Value) : Except EvalError String :=
  let w := width.toFloat
  if Float.ofNat maxPadWidth < w then .error (.badArguments "padStart" .padTooWide)
  else
    let cs := s.toList
    let fill := match fill with
      | none => [' ']
      | v => v.display.toList
    let w := Binary.toIndex w
    if w ≤ cs.length ∨ fill.isEmpty then .ok s
    else .ok (String.ofList (cycled fill (w - cs.length) ++ cs))

/-- The value of a call on a text. -/
def apply (m : TextMethod) (s : String) (args : List Value) : Except EvalError Json :=
  let cs := s.toList
  let first := (argument args 0).display.toList
  match m with
  | toUpperCase => .ok (.str (Text.upper s))
  | toLowerCase => .ok (.str (Text.lower s))
  | trim => .ok (.str (Text.trim s))
  | toString => .ok (.str s)
  | includes => .ok (.bool (Text.contains first cs))
  | startsWith => .ok (.bool (first.isPrefixOf cs))
  | endsWith => .ok (.bool (Text.endsWith first cs))
  | indexOf => .ok (positionOrNone (Text.position? first cs))
  | charAt => .ok (.str (String.ofList (charAtText cs (argument args 0))))
  | slice =>
    let bounds := sliceBounds cs.length (argument args 0) (argument args 1)
    .ok (.str (String.ofList (between bounds cs)))
  | substring =>
    let bounds := substringBounds cs.length (argument args 0) (argument args 1)
    .ok (.str (String.ofList (between bounds cs)))
  | split => .ok (.arr (pieces s (argument args 0)))
  | replace =>
    let new := (argument args 1).display.toList
    .ok (.str (String.ofList (Text.replaceFirst first new cs)))
  | padStart => (padded s (argument args 0) (argument args 1)).map .str

end TextMethod

/-! ### Lists -/

/-- A method of lists. -/
inductive ListMethod where
  | join | includes | indexOf | slice | concat | reverse | toString
deriving DecidableEq

namespace ListMethod

/-- The name of a method. -/
def name : ListMethod → String
  | join => "join" | includes => "includes" | indexOf => "indexOf" | slice => "slice"
  | concat => "concat" | reverse => "reverse" | toString => "toString"

/-- All methods of lists. -/
def all : List ListMethod := [join, includes, indexOf, slice, concat, reverse, toString]

/-- The method of a name. -/
def ofName? (s : String) : Option ListMethod := all.find? fun m => m.name = s

@[simp]
theorem ofName?_name (m : ListMethod) : ofName? m.name = some m := by cases m <;> rfl

/-- The items that an argument of `concat` adds; undefined adds none. -/
def concatItems : Value → List Json
  | none => []
  | some (.arr items) => items
  | some v => [v]

/-- The value of a call on a list. -/
def apply (m : ListMethod) (items : List Json) (args : List Value) : Json :=
  let isFirst := fun v : Json => Value.strictEq (some v) (argument args 0)
  match m with
  | join =>
    let sep := match argument args 0 with
      | none => ","
      | v => v.display
    .str (sep.intercalate (items.map fun v => Value.text (some v)))
  | includes => .bool (items.any isFirst)
  | indexOf => TextMethod.positionOrNone (items.findIdx? isFirst)
  | slice => .arr (between (sliceBounds items.length (argument args 0) (argument args 1)) items)
  | concat => .arr (items ++ args.flatMap concatItems)
  | reverse => .arr items.reverse
  | toString => .str (Json.arr items).display

end ListMethod

/-! ### Numbers -/

/-- A number with a count of decimal places. -/
def fixedText (x : Float) (places : Value) : Except EvalError String :=
  let d := match places with
    | none => 0
    | v => v.toFloat
  if 0 ≤ d ∧ d ≤ 100 then .ok ((Binary.ofFloat x).fixed (Binary.toIndex d))
  else .error (.badArguments "toFixed" .digitsOutOfRange)

/-! ### Calls -/

namespace Json

/-- There is no such method. -/
def noMethod {α : Type} (kind method : String) : Except EvalError α :=
  .error (.notCallable (kind ++ "." ++ method))

/-- Call a method of a value. -/
def callMethod (receiver : Json) (method : String) (args : List Value) :
    Except EvalError Value :=
  match receiver with
  | str s =>
    match TextMethod.ofName? method with
    | some m => (m.apply s args).map some
    | none => noMethod "string" method
  | arr items =>
    match ListMethod.ofName? method with
    | some m => .ok (some (m.apply items args))
    | none => noMethod "array" method
  | num n =>
    if method = "toFixed" then
      (fixedText n.toFloat (argument args 0)).map fun s => some (str s)
    else if method = "toString" then .ok (some (str (floatText n.toFloat)))
    else noMethod "number" method
  | bool b =>
    if method = "toString" then .ok (some (str (if b then "true" else "false")))
    else noMethod "boolean" method
  | v => noMethod (Value.typeName (some v)) method

end Json

end SchemaCanvas
