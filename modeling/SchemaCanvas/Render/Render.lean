import SchemaCanvas.Render.Branch
import SchemaCanvas.Render.Component
import SchemaCanvas.Render.Config
import SchemaCanvas.Render.Loop
import SchemaCanvas.Render.Output

/-!
# Rendering

`Renderer.render` turns a schema tree and a context into a rendered tree. For every node it lays the
defaults of a component under the context, changes the element for the surface, follows its
conditions, repeats it if it has a loop, and resolves its props and children. An element that fails
leaves its place to a failure, and everything around it is rendered.

Every element, `else` branch and repetition is rendered one level deeper than the element that leads
to it, and the levels are counted down. A loop is refused inside the repetitions of a loop over the
same source.
-/

namespace SchemaCanvas

/-- What is given for the rendering of a tree. -/
structure Renderer where
  config : RenderConfig
  transforms : Transforms

/-- What is given for the rendering of one node. -/
structure RenderFrame where
  context : Json
  /-- the sources of the loops around the node, the outermost first -/
  sources : List String
  path : Path

namespace RenderFrame

/-- The frame of the entry at a position below the node. -/
def below (frame : RenderFrame) (i : Nat) : RenderFrame := { frame with path := frame.path ++ [i] }

/-- The frame of a repetition. -/
def repetition (frame : RenderFrame) (source : String) (context : Json) (i : Nat) : RenderFrame :=
  { context, sources := frame.sources ++ [source], path := frame.path ++ [i] }

end RenderFrame

/-- What a loop repeats: its only child, if it has one and that is a node, or else the element
itself without the directives that have been followed. -/
def Element.loopBody (e : Element) (id : String) : Node :=
  match e.items with
  | [.node n] => n
  | _ => { element := { e with id, loop := none, condition := none, elseIf := none,
                               otherwise := none } }

namespace Renderer

variable (r : Renderer)

/-- The props that have a value. -/
def props (e : Element) (context : Json) : Entries Json :=
  e.props.filterMap fun (name, p) => (p.resolve context r.transforms).map fun v => (name, v)

/-- The key of an element, if it has text. -/
def key? (e : Element) (context : Json) : Option String :=
  (e.key.map fun k => (k.resolve context r.transforms).text).filter fun k => !k.isEmpty

section

variable (inner : RenderFrame → Node → Option Output)

/-- An entry of a list of children, where `inner` renders nodes. -/
def renderItem (frame : RenderFrame) (item : ChildItem) : Option Output :=
  match item with
  | .text s => some (.text (PropValue.resolveLiteral (.str s) frame.context).text)
  | .ref ref => some (.text (ref.resolve frame.context r.transforms).text)
  | .node n => inner frame n
  | .other (.num n) => some (.text (Value.text (some (.num n))))
  | .other (.bool b) => some (.text (Value.text (some (.bool b))))
  | .other _ => none

/-- The entries of a list of children, at the positions they have in it. -/
def renderItems (frame : RenderFrame) (items : List ChildItem) : List Output :=
  (items.mapIdx fun i item => r.renderItem inner (frame.below i) item).filterMap id

/-- An element without conditions and loops. -/
def renderPlain (frame : RenderFrame) (id : String) (e : Element) : OutputElement where
  id
  type := if r.config.knows e.type then e.type else RenderConfig.fallbackType
  originalType := if r.config.knows e.type then none else some e.type
  key := r.key? e frame.context
  path := frame.path
  props := r.props e frame.context
  children := r.renderItems inner frame e.items
  link := e.link.map fun target => { target, context := frame.context }

/-- One repetition of a loop. -/
def renderRepetition (frame : RenderFrame) (id : String) (e : Element) (l : Loop) (i : Nat)
    (item : Json) : Repetition :=
  let context := l.itemContext frame.context item i
  { key := l.itemKey e.key id context r.transforms i
    index := i
    body := inner (frame.repetition l.source.identity context i) (e.loopBody id) }

/-- The repetitions of a loop. There are none over a source that is being repeated already, or that
has no items. -/
def renderLoop (frame : RenderFrame) (id : String) (e : Element) (l : Loop) : List Repetition :=
  if frame.sources.contains l.source.identity then []
  else
    match l.items frame.context r.transforms with
    | .ok items => items.mapIdx (r.renderRepetition inner frame id e l)
    | .error _ => []

/-- An element as it is on the surface. -/
def renderElement (frame : RenderFrame) (id : String) (e : Element) : Option Output :=
  match e.branch frame.context r.transforms with
  | .nothing => none
  | .node n => inner frame n
  | .self =>
    match e.loop with
    | some l => some (.loop id frame.path (r.renderLoop inner frame id e l))
    | none => some (.element (r.renderPlain inner frame id e))

end

/-- A node, of which `levels` levels may be rendered. -/
def renderNode (levels : Nat) (frame : RenderFrame) (n : Node) : Option Output :=
  if (Text.trim n.type).isEmpty then none
  else
    match levels with
    | 0 => some (.failure n.id n.type frame.path (.tooDeep r.config.maxDepth))
    | levels + 1 =>
      match n.element.onSurface r.config.platform with
      | .error fault => some (.failure n.id n.type frame.path (.platform fault))
      | .ok e =>
        r.renderElement (renderNode levels) { frame with context := n.context frame.context } n.id e

/-- A whole tree. -/
def render (tree : Node) (context : Json) : Option Output :=
  r.renderNode r.config.maxDepth { context, sources := [], path := [] } tree

end Renderer

end SchemaCanvas
