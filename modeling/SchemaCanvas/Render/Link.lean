import SchemaCanvas.Schema.Node

/-!
# Links

A link is resolved when it is followed, in the context in which it was shown. It leads to a target,
perhaps with parameters; a link whose target has no text leads nowhere.
-/

namespace SchemaCanvas

/-- A link and the context in which it was shown. -/
structure PendingLink where
  target : LinkTarget
  context : Json

/-- Where a link leads. -/
structure Navigation where
  target : String
  params : Option (Entries Json)

namespace Navigation

/-- The navigation that a value stands for: an object with a target and parameters, or a text. -/
def ofValue? : Value → Option Navigation
  | some (.obj fields) =>
    some { target := Value.text (fields.lookup "ui"),
           params := (fields.lookup "params").bind Json.fields? }
  | none | some .null => none
  | v => some { target := v.text, params := none }

end Navigation

namespace PendingLink

/-- The parameters of a link. What is undefined is null. -/
def resolveParams (params : Entries Json) (context : Json) (transforms : Transforms) :
    Entries Json :=
  params.map fun (name, v) => (name, (v.resolve context transforms).getD .null)

/-- Where a link leads, even without a target. -/
def destination? (l : PendingLink) (transforms : Transforms) : Option Navigation :=
  match l.target with
  | .path text => some { target := Template.interpolate text l.context, params := none }
  | .target ui params =>
    some { target := Template.interpolate ui l.context,
           params := params.map fun p => resolveParams p l.context transforms }
  | .ref r => Navigation.ofValue? (r.resolve l.context transforms)

/-- Where a link leads. -/
def resolve? (l : PendingLink) (transforms : Transforms) : Option Navigation :=
  (l.destination? transforms).filter fun n => !n.target.isEmpty

end PendingLink

end SchemaCanvas
