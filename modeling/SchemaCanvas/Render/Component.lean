import SchemaCanvas.Schema.Node

/-!
# Defaults of components

A component brings defaults for the names `data`, `props` and `states` of the context in which its
element is rendered. A name of the context wins; where both sides are objects they are merged, one
level deep.
-/

namespace SchemaCanvas

/-- Lay a default under a name of a context. -/
def underlay (name : String) (default : Option Json) (context : Entries Json) : Entries Json :=
  match default with
  | none => context
  | some d =>
    match context.lookup name, d with
    | none, d => context.insert name d
    | some (.obj own), .obj fields => context.insert name (.obj (Entries.orElse own fields))
    | some _, _ => context

/-- The context of the element of a component. A context that is no object counts as empty. -/
def Component.context (c : Component) (context : Json) : Json :=
  let fields := underlay "data" c.data (context.fields?.getD [])
  let fields := underlay "props" (c.props.map .obj) fields
  .obj (underlay "states" c.states fields)

/-- The context in which the element of a node is rendered. -/
def Node.context (n : Node) (context : Json) : Json :=
  match n.component with
  | some c => c.context context
  | none => context

end SchemaCanvas
