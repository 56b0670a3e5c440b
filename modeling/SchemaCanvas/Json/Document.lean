import SchemaCanvas.Json.Basic
import SchemaCanvas.Number.Numeral

/-!
# Reading JSON text

Text is read in two steps. `Document.read?` recovers its structure: fields stand in written order
and may repeat, and a number out of range or a string with half of a surrogate pair is kept as a
fault, since it does no harm where nobody looks at it. `Document.value?` is the value a document
means; it needs every part to be sound. `Json.read?` does both and refuses values nested deeper
than `Json.maxNesting`.

A numeral is read as a significand of 64 bits, further digits only counting as zeros or not at all,
scaled by one power of ten in floating-point arithmetic.
-/

namespace SchemaCanvas

/-- What JSON text says. `none` is a number or string that has no value. -/
inductive Document where
  | null
  | bool (b : Bool)
  | num (n : Option Number)
  | str (s : Option String)
  | arr (items : List Document)
  | obj (fields : List (Option String × Document))

namespace Document

/-- Skip the blanks of JSON text. -/
def skipBlanks (cs : List Char) : List Char :=
  cs.dropWhile fun c => c = ' ' ∨ c = '\n' ∨ c = '\t' ∨ c = '\r'

/-! ### Numbers -/

/-- Append digits to a significand as long as it has 64 bits; the digits that do not fit are
left. -/
def significand (s : Nat) : List Char → Nat × List Char
  | [] => (s, [])
  | c :: rest =>
    let next := s * 10 + Numeral.digit c
    if next ≤ Word.maxUnsigned then significand next rest else (s, c :: rest)

/-- A float divided by a power of ten. Powers beyond the range of floats are applied in steps of
`10 ^ 308`; two of them bring every significand to zero. -/
def scaleDown : Nat → Float → Nat → Float
  | 0, f, _ => f
  | steps + 1, f, n =>
    if n ≤ 308 then f / Numeral.scaled 1 n
    else if f == 0 then f
    else scaleDown steps (f / Numeral.scaled 1 308) (n - 308)

/-- A significand scaled by a power of ten, if the result is a finite float. -/
def scale? (s : Nat) (exponent : Int) : Option Float :=
  let f := Float.ofNat s
  match exponent with
  | .negSucc n => some (scaleDown 3 f (n + 1))
  | .ofNat n =>
    if n ≤ 308 then
      let x := f * Numeral.scaled 1 n
      if x.isFinite then some x else none
    else if s = 0 then some f
    else none

/-- The number of a numeral from its parts. Without a fraction and an exponent it is an integer,
unless it is too large for 64 bits or a negative zero. -/
def number? (negative : Bool) (whole : List Char) (fraction : Option (List Char))
    (exponent : Option Int) : Option Number :=
  let (s, dropped) := significand 0 whole
  let float := fun (s : Nat) (e : Int) =>
    (scale? s e).bind fun f => Number.ofFloat? (if negative then -f else f)
  match fraction, exponent, dropped with
  | none, none, [] =>
    if !negative then Number.ofInt? s
    else if s = 0 ∨ -Word.minSigned < s then float s 0
    else Number.ofInt? (-s)
  | fraction, exponent, dropped =>
    let digits := fraction.getD []
    let (s, unread) := significand s digits
    float s (dropped.length - (digits.length - unread.length : Nat) + exponent.getD 0)

/-- The fraction of a numeral, which has at least one digit. -/
def fraction? : List Char → Option (Option (List Char) × List Char)
  | '.' :: rest =>
    let (digits, rest) := Numeral.spanDigits rest
    if digits.isEmpty then none else some (some digits, rest)
  | cs => some (none, cs)

/-- The exponent of a numeral, which has at least one digit. -/
def exponent? : List Char → Option (Option Int × List Char)
  | [] => some (none, [])
  | c :: rest =>
    if c = 'e' ∨ c = 'E' then
      let (negative, rest) := Numeral.spanSign rest
      let (digits, rest) := Numeral.spanDigits rest
      if digits.isEmpty then none
      else some (some (Binary.signed negative (Numeral.ofDigits digits)), rest)
    else some (none, c :: rest)

/-- The sign of a numeral, and what follows. -/
def sign : List Char → Bool × List Char
  | '-' :: rest => (true, rest)
  | cs => (false, cs)

/-- The integer part of a numeral, which has no leading zero, and what follows. -/
def whole? : List Char → Option (List Char × List Char)
  | '0' :: rest => some (['0'], rest)
  | cs =>
    let (digits, rest) := Numeral.spanDigits cs
    if digits.isEmpty then none else some (digits, rest)

/-- A numeral. -/
def numeral? (cs : List Char) : Option (Document × List Char) := do
  let (negative, cs) := sign cs
  let (whole, cs) ← whole? cs
  let (fraction, cs) ← fraction? cs
  let (exponent, cs) ← exponent? cs
  some (num (number? negative whole fraction exponent), cs)

/-! ### Strings -/

/-- An entry of a string: a character, or a code given in hexadecimal. -/
inductive Unit where
  | char (c : Char)
  | code (n : Nat)

/-- The value of a hexadecimal digit. -/
def hexDigit? (c : Char) : Option Nat :=
  if '0' ≤ c ∧ c ≤ '9' then some (c.toNat - '0'.toNat)
  else if 'a' ≤ c ∧ c ≤ 'f' then some (c.toNat - 'a'.toNat + 10)
  else if 'A' ≤ c ∧ c ≤ 'F' then some (c.toNat - 'A'.toNat + 10)
  else none

/-- Four hexadecimal digits. -/
def hexCode? (a b c d : Char) : Option Nat := do
  some ((((← hexDigit? a) * 16 + (← hexDigit? b)) * 16 + (← hexDigit? c)) * 16 + (← hexDigit? d))

/-- The character that a backslash and a letter stand for. -/
def escape? : Char → Option Char
  | '"' => some '"'
  | '\\' => some '\\'
  | '/' => some '/'
  | 'b' => some '\x08'
  | 'f' => some '\x0C'
  | 'n' => some '\n'
  | 'r' => some '\r'
  | 't' => some '\t'
  | _ => none

/-- The entries of a string up to its closing quote, and the text behind it. -/
def units? : List Char → Option (List Unit × List Char)
  | [] => none
  | '"' :: rest => some ([], rest)
  | '\\' :: 'u' :: a :: b :: c :: d :: rest => do
    let n ← hexCode? a b c d
    let (us, after) ← units? rest
    some (.code n :: us, after)
  | '\\' :: c :: rest => do
    let e ← escape? c
    let (us, after) ← units? rest
    some (.char e :: us, after)
  | c :: rest => do
    if c.toNat < 0x20 then none
    else
      let (us, after) ← units? rest
      some (.char c :: us, after)

/-- The text of a string. Two codes of a surrogate pair make one character. -/
def text? : List Unit → Option (List Char)
  | [] => some []
  | .char c :: rest => (text? rest).map (c :: ·)
  | .code n :: rest =>
    if 0xDC00 ≤ n ∧ n ≤ 0xDFFF then none
    else if 0xD800 ≤ n ∧ n ≤ 0xDBFF then
      match rest with
      | .code m :: rest =>
        if 0xDC00 ≤ m ∧ m ≤ 0xDFFF then
          (text? rest).map (Char.ofNat (0x10000 + (n - 0xD800) * 0x400 + (m - 0xDC00)) :: ·)
        else none
      | _ => none
    else (text? rest).map (Char.ofNat n :: ·)

/-- A string behind its opening quote. -/
def string? (cs : List Char) : Option (Option String × List Char) :=
  (units? cs).map fun (us, rest) => ((text? us).map String.ofList, rest)

/-! ### Structure -/

/-- A word of the language, if it stands at the start. -/
def word? (word : String) (d : Document) (cs : List Char) : Option (Document × List Char) :=
  if word.toList.isPrefixOf cs then some (d, cs.drop word.length) else none

mutual

/-- A value at the start of the text, and what follows. Each character is read by at most two calls
in turn, which bounds the number of steps. -/
def valueAt? : Nat → List Char → Option (Document × List Char)
  | 0, _ => none
  | steps + 1, cs =>
    match cs with
    | '[' :: rest =>
      match skipBlanks rest with
      | ']' :: rest => some (arr [], rest)
      | rest => (itemsAt? steps rest).map fun (items, rest) => (arr items, rest)
    | '\x7b' :: rest =>
      match skipBlanks rest with
      | '\x7d' :: rest => some (obj [], rest)
      | rest => (fieldsAt? steps rest).map fun (fields, rest) => (obj fields, rest)
    | '"' :: rest => (string? rest).map fun (s, rest) => (str s, rest)
    | 't' :: _ => word? "true" (bool true) cs
    | 'f' :: _ => word? "false" (bool false) cs
    | 'n' :: _ => word? "null" null cs
    | cs => numeral? cs

/-- List items up to the closing bracket. -/
def itemsAt? : Nat → List Char → Option (List Document × List Char)
  | 0, _ => none
  | steps + 1, cs => do
    let (d, rest) ← valueAt? steps (skipBlanks cs)
    match skipBlanks rest with
    | ']' :: rest => some ([d], rest)
    | ',' :: rest =>
      let (ds, rest) ← itemsAt? steps rest
      some (d :: ds, rest)
    | _ => none

/-- Fields up to the closing brace. -/
def fieldsAt? : Nat → List Char → Option (List (Option String × Document) × List Char)
  | 0, _ => none
  | steps + 1, cs =>
    match skipBlanks cs with
    | '"' :: rest => do
      let (name, rest) ← string? rest
      match skipBlanks rest with
      | ':' :: rest =>
        let (d, rest) ← valueAt? steps (skipBlanks rest)
        match skipBlanks rest with
        | '\x7d' :: rest => some ([(name, d)], rest)
        | ',' :: rest =>
          let (ds, rest) ← fieldsAt? steps rest
          some ((name, d) :: ds, rest)
        | _ => none
      | _ => none
    | _ => none

end

/-- The document of a whole text. -/
def read? (text : String) : Option Document :=
  let cs := text.toList
  match valueAt? (2 * cs.length + 2) (skipBlanks cs) with
  | some (d, rest) => if (skipBlanks rest).isEmpty then some d else none
  | none => none

/-! ### Meaning -/

mutual

/-- How deeply lists and objects are nested. -/
def nesting : Document → Nat
  | arr items => 1 + nestingOfItems items
  | obj fields => 1 + nestingOfFields fields
  | _ => 0

/-- The deepest nesting among items. -/
def nestingOfItems : List Document → Nat
  | [] => 0
  | d :: rest => max (nesting d) (nestingOfItems rest)

/-- The deepest nesting among fields. -/
def nestingOfFields : List (Option String × Document) → Nat
  | [] => 0
  | (_, d) :: rest => max (nesting d) (nestingOfFields rest)

end

mutual

/-- The value of a document, if every part of it has one. -/
def value? : Document → Option Json
  | null => some .null
  | bool b => some (.bool b)
  | num n => n.map .num
  | str s => s.map .str
  | arr items => (itemValues? items).map .arr
  | obj fields => (fieldValues? fields).map .object

/-- The values of items. -/
def itemValues? : List Document → Option (List Json)
  | [] => some []
  | d :: rest => do some ((← value? d) :: (← itemValues? rest))

/-- The values of fields; of a repeated name the last counts. -/
def fieldValues? : List (Option String × Document) → Option (List (String × Json))
  | [] => some []
  | (name, d) :: rest => do some ((← name, ← value? d) :: (← fieldValues? rest))

end

end Document

namespace Json

/-- The deepest nesting of lists and objects that is read from text. -/
def maxNesting : Nat := 127

/-- The value of a JSON text. -/
def read? (text : String) : Option Json :=
  match Document.read? text with
  | some d => if d.nesting ≤ maxNesting then d.value? else none
  | none => none

end Json

end SchemaCanvas
