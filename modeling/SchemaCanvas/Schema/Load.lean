import SchemaCanvas.Json.Document
import SchemaCanvas.Schema.Codec
import SchemaCanvas.Schema.Diagnostic
import SchemaCanvas.Schema.Ident

/-!
# Loading a schema

A value is loaded as a tree whenever a tree can be read from it, and every node gets an id. Where
that fails, the diagnostics of the value say more. `Schema.load` starts from a value, `Schema.parse`
from JSON text; `Node.pretty` writes text that can be loaded again.
-/

namespace SchemaCanvas

/-- Why a schema cannot be loaded. -/
inductive LoadError where
  | notJson
  | invalidRoot (fault : NodeFault) (diagnostics : List Diagnostic)

namespace Schema

/-- The tree of a value, all of its nodes with ids, and the number of the next draw. -/
def load (next : Nat) (v : Json) : Except LoadError (Node × Nat) :=
  match Node.ofJson v with
  | .ok tree =>
    let (tree, repair) := tree.ensureIds next
    .ok (tree, repair.pool.next)
  | .error fault => .error (.invalidRoot fault (validate v))

/-- The tree of a JSON text. -/
def parse (next : Nat) (text : String) : Except LoadError (Node × Nat) :=
  match Json.read? text with
  | some v => load next v
  | none => .error .notJson

end Schema

end SchemaCanvas
