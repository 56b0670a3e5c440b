import SchemaCanvas.Expr.Value
import SchemaCanvas.Expr.EvalError

/-!
# Names and paths in a context

Expressions see a context as one flat table of names: the fields of the context and of the objects
in it, the nearer to the top the earlier (`Scope.ofContext`). Bindings see it through dot paths
(`Json.atPath?`), which name every step.
-/

namespace SchemaCanvas

/-- A table of names, in which the first entry of a name counts. -/
abbrev Scope := List (String × Json)

namespace Scope

/-- How many levels of objects have their names in the table. -/
def levels : Nat := 8

/-- The objects at a depth, in the order of the keys that lead to them. Lists are not entered. -/
def objectsAt (context : Json) : Nat → List (Entries Json)
  | 0 => context.fields?.toList
  | depth + 1 =>
    (objectsAt context depth).flatMap fun fields => fields.filterMap fun e => e.2.fields?

/-- The names of a context. -/
def ofContext (context : Json) : Scope :=
  (List.range levels).flatMap fun depth => (objectsAt context depth).flatten

end Scope

/-! ### Dot paths -/

namespace Json

/-- The entry of an object or list that one step of a path names. -/
def step? (name : List Char) : Json → Option Json
  | obj fields => fields.lookup (String.ofList name)
  | arr items =>
    if !name.isEmpty && name.all Char.isDigit then
      (Numeral.readIndex? name).bind fun i => items[i]?
    else none
  | _ => none

/-- The steps of a path. -/
def pathSteps (path : List Char) : List (List Char) :=
  (path.splitOn '.').map Text.trimmed

/-- The value at a dot path; a blank path is the value itself. -/
def atPath? (path : String) (data : Json) : Option Json :=
  let path := Text.trimmed path.toList
  if path.isEmpty then some data
  else (pathSteps path).foldlM (fun v name => v.step? name) data

end Json

end SchemaCanvas
