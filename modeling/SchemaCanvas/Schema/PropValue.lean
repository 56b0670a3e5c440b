import SchemaCanvas.Expr.Template
import SchemaCanvas.Schema.Transform

/-!
# Values given in a schema

A prop, a condition or a key is a literal or refers to the context: `DataRef` is an expression or a
dot path with transforms. Records such as these are written as an object, or as a list of their
fields in order.

* `DataRef.ofJson?` and `PropValue.ofJson` read, `DataRef.toJson` and `PropValue.toJson` write;
* `PropValue.resolve` gives the value in a context.
-/

namespace SchemaCanvas

/-- The fields of a record: those of an object, or those of a list by position. A list must not
have more items than the record has fields. -/
def Json.record? (names : List String) : Json → Option (Entries Json)
  | obj fields => some fields
  | arr items => if items.length ≤ names.length then some (names.zip items) else none
  | _ => none

/-- A field that may be left out, where null is the same as absent. -/
def optionalField {α : Type} (read : Json → Option α) (fields : Entries Json) (name : String) :
    Option (Option α) :=
  match fields.lookup name with
  | none | some .null => some none
  | some v => (read v).map some

/-- All texts of a list. -/
def Json.texts? : Json → Option (List String)
  | arr items => items.mapM Json.text?
  | _ => none

/-! ### References to the context -/

/-- A value taken from the context. -/
inductive DataRef where
  /-- the text of an expression -/
  | expression (text : String)
  /-- a dot path, and the transforms of the value found there -/
  | path (path : String) (transforms : List String)
deriving DecidableEq

namespace DataRef

/-- The names of transforms: none, one or a list. -/
def transformNames? : Option Json → Option (List String)
  | none | some .null => some []
  | some (.str s) => some [s]
  | some v => v.texts?

/-- A record with a text under `$exp`. -/
def expression? (v : Json) : Option DataRef := do
  let fields ← v.record? ["$exp"]
  let text ← (← fields.lookup "$exp").text?
  some (expression text)

/-- A record with a text under `$bind`, and perhaps `$transform`. -/
def path? (v : Json) : Option DataRef := do
  let fields ← v.record? ["$bind", "$transform"]
  let path ← (← fields.lookup "$bind").text?
  let transforms ← transformNames? (fields.lookup "$transform")
  some (DataRef.path path transforms)

/-- A reference read from a value. -/
def ofJson? (v : Json) : Option DataRef := expression? v <|> path? v

/-- A reference as a value. -/
def toJson : DataRef → Json
  | expression text => .obj [("$exp", .str text)]
  | path p transforms =>
    .obj (("$bind", .str p) ::
      if transforms.isEmpty then [] else [("$transform", .arr (transforms.map .str))])

/-- The value of a reference in a context. -/
def resolve (ref : DataRef) (context : Json) (transforms : Transforms) : Value :=
  match ref with
  | expression text => Expr.value text context
  | path p names => transforms.apply names (Json.atPath? p context)

end DataRef

/-! ### Values -/

/-- A value given in a schema. -/
inductive PropValue where
  | ref (r : DataRef)
  /-- a value by itself; a text may be a template -/
  | literal (v : Json)

namespace PropValue

/-- A value read from JSON: what is no reference is a literal. -/
def ofJson (v : Json) : PropValue :=
  match DataRef.ofJson? v with
  | some r => ref r
  | none => literal v

/-- A value as JSON. -/
def toJson : PropValue → Json
  | ref r => r.toJson
  | literal v => v

/-- A literal in a context: templates are filled, everything else stays. -/
def resolveLiteral (v : Json) (context : Json) : Value :=
  match v with
  | .str s => if Template.hasHole s then some (.str (Template.interpolate s context)) else some v
  | v => some v

/-- The value in a context. -/
def resolve (p : PropValue) (context : Json) (transforms : Transforms) : Value :=
  match p with
  | ref r => r.resolve context transforms
  | literal v => resolveLiteral v context

end PropValue

/-- A JSON value in a context, where references stand for their values. -/
def Json.resolve (v context : Json) (transforms : Transforms) : Value :=
  (PropValue.ofJson v).resolve context transforms

end SchemaCanvas
