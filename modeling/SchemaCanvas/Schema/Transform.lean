import SchemaCanvas.Expr.Value

/-!
# Named transforms

A binding may send its value through named transforms, which the host supplies. Unknown names leave
the value as it is. `Transforms.basic` is a collection of general ones.
-/

namespace SchemaCanvas

/-- The transforms that bindings can name. -/
abbrev Transforms := List (String × (Value → Value))

namespace Transforms

/-- Apply transforms from left to right. -/
def apply (transforms : Transforms) (names : List String) (v : Value) : Value :=
  names.foldl
    (fun v name => match transforms.lookup name with
      | some f => f v
      | none => v)
    v

/-- A transform of texts, undefined elsewhere. -/
def onText (f : String → String) : Value → Value
  | some (.str s) => some (.str (f s))
  | _ => none

/-- Twice an integer, undefined where the result has more than 64 bits with a sign. -/
def double : Value → Value
  | some (.num n) =>
    (n.toInt?.map (2 * ·)).bind fun i =>
      if Word.minSigned ≤ i ∧ i ≤ Word.maxSigned then some (.ofInt i) else none
  | _ => none

/-- A text in place of null and undefined. -/
def orDefault (v : Value) : Value := if v.isNullish then some (.str "default") else v

/-- General transforms. -/
def basic : Transforms :=
  [("upper", onText fun s => s.map Char.toUpper),
    ("exclaim", onText fun s => s ++ "!"),
    ("double", double),
    ("orDefault", orDefault),
    ("typeName", fun v => some (.str v.typeName)),
    ("drop", fun _ => none),
    ("wrap", fun v => some (.arr v.toList))]

end Transforms

end SchemaCanvas
