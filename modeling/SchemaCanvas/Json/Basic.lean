import SchemaCanvas.Json.Entries
import SchemaCanvas.Number.Binary

/-!
# JSON values

`Json` is the one kind of value that documents, contexts and expressions hold. A number is an
integer of 64 bits or a finite float, and the two stay apart inside lists and objects (`[5]` and
`[5.0]` differ). The entries of an object are held in the order of their names.

* `Json.computed` is the value of a float that was computed: a small integer where it can be;
* `Json.same` is equality of values, floats compared as floats.
-/

namespace SchemaCanvas

/-! ### Numbers -/

/-- A number that JSON text can hold. -/
inductive Number where
  | int (value : Int) (inRange : Word.minSigned ≤ value ∧ value ≤ Word.maxUnsigned)
  | float (value : Float) (finite : value.isFinite)
deriving DecidableEq

namespace Number

/-- An integer as a number, if it has 64 bits. -/
def ofInt? (n : Int) : Option Number :=
  if h : Word.minSigned ≤ n ∧ n ≤ Word.maxUnsigned then some (int n h) else none

/-- A float as a number, if it is finite. -/
def ofFloat? (f : Float) : Option Number :=
  if h : f.isFinite then some (float f h) else none

/-- The nearest float. -/
def toFloat : Number → Float
  | int n _ => Float.ofInt n
  | float f _ => f

/-- The integer itself, if it has 64 bits with a sign. -/
def toInt? : Number → Option Int
  | int n _ => if n ≤ Word.maxSigned then some n else none
  | float .. => none

/-- The number itself, if it is a natural number. -/
def toNat? : Number → Option Nat
  | int n _ => if 0 ≤ n then some n.toNat else none
  | float .. => none

/-- Integers are equal to integers and floats to floats. -/
def same : Number → Number → Bool
  | int m _, int n _ => m == n
  | float x _, float y _ => x == y
  | _, _ => false

end Number

/-! ### Values -/

/-- A JSON value. -/
inductive Json where
  | null
  | bool (b : Bool)
  | num (n : Number)
  | str (s : String)
  | arr (items : List Json)
  | obj (fields : List (String × Json))
deriving Inhabited

namespace Json

/-- An object of the given entries, in any order. -/
def object (pairs : List (String × Json)) : Json := obj (Entries.ofList pairs)

/-- A value read from the field of an object. -/
def field? (name : String) : Json → Option Json
  | obj fields => fields.lookup name
  | _ => none

/-- The text of a string value. -/
def text? : Json → Option String
  | str s => some s
  | _ => none

/-- The fields of an object. -/
def fields? : Json → Option (Entries Json)
  | obj fields => some fields
  | _ => none

/-- All items of a list. -/
def items? : Json → Option (List Json)
  | arr items => some items
  | _ => none

/-- A position or a count. A float is neither, not even a whole one. -/
def nat? : Json → Option Nat
  | num n => n.toNat?
  | _ => none

/-- An integer, or null where it has more than 64 bits. -/
def ofInt (n : Int) : Json := ((Number.ofInt? n).map num).getD null

/-- A position or a count. -/
def ofNat (n : Nat) : Json := ofInt n

theorem nat?_ofNat {n : Nat} (h : n ≤ Word.maxUnsigned) : nat? (ofNat n) = some n := by
  have hn : Word.minSigned ≤ (n : Int) := by
    have : Word.minSigned ≤ 0 := by decide
    omega
  simp [ofNat, ofInt, Number.ofInt?, hn, h, nat?, Number.toNat?]

/-- A float as it is, or null where it is not finite. -/
def ofFloat (f : Float) : Json := ((Number.ofFloat? f).map num).getD null

/-- The value of a computed float: an integer where it is one below `2 ^ 53`, null where it is not
finite, the float itself otherwise. -/
def computed (f : Float) : Json :=
  match (Binary.ofFloat f).whole? with
  | some n => if n.natAbs < 0x20000000000000 then ofInt n else ofFloat f
  | none => ofFloat f

mutual

/-- Equality of values. -/
def same : Json → Json → Bool
  | null, null => true
  | bool a, bool b => a == b
  | num a, num b => a.same b
  | str a, str b => a == b
  | arr a, arr b => sameItems a b
  | obj a, obj b => sameFields a b
  | _, _ => false

/-- Equality of lists of values. -/
def sameItems : List Json → List Json → Bool
  | [], [] => true
  | a :: as, b :: bs => same a b && sameItems as bs
  | _, _ => false

/-- Equality of fields. -/
def sameFields : List (String × Json) → List (String × Json) → Bool
  | [], [] => true
  | (k, a) :: as, (l, b) :: bs => k == l && same a b && sameFields as bs
  | _, _ => false

end

end Json

end SchemaCanvas
