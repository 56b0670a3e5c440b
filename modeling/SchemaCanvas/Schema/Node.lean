import SchemaCanvas.Schema.PropValue

/-!
# Schema trees

A schema is a tree of nodes. Every `Node` displays an `Element`; a node that is a component carries
a `Component` besides, with an id of its own and with defaults for the data of its element. Elements
hold their children in a list, whose entries are texts, references, nodes and values that are none
of these. An element may also hold one more node in its `else` branch.

* `Node.items` and `Node.child?` look one level down, in the same way for both kinds of node;
* `Node.withItems` replaces the list, `Node.withElement` the element;
* `Node.size` counts the nodes that are reached through children.
-/

namespace SchemaCanvas

/-! ### Directives -/

/-- Where the items of a loop come from. -/
inductive LoopSource where
  | ref (r : DataRef)
  /-- a dot path -/
  | path (text : String)

/-- What tells one source from another. -/
def LoopSource.identity : LoopSource → String
  | ref (.expression text) => "$exp:" ++ Text.trim text
  | ref (.path text _) => Text.trim text
  | path text => Text.trim text

/-- An element repeated for every item of a source. -/
structure Loop where
  source : LoopSource
  /-- the name of the item in the context of one repetition -/
  item : String
  /-- the name of its position -/
  index : Option String := none
  key : Option PropValue := none

/-- Where a click on an element leads. -/
inductive LinkTarget where
  | ref (r : DataRef)
  /-- a template for the target, and parameters -/
  | target (ui : String) (params : Option (Entries Json))
  /-- a template for the target alone -/
  | path (text : String)

/-! ### Nodes -/

/-- What a node has that is a component. -/
structure Component where
  id : String := ""
  name : Option String := none
  data : Option Json := none
  props : Option (Entries Json) := none
  states : Option Json := none
  methods : Option (Entries Json) := none
  effects : Option (List Json) := none

mutual

/-- A displayed element. -/
structure Element where
  id : String := ""
  type : String
  props : Entries PropValue := []
  children : Option (List ChildItem) := none
  condition : Option PropValue := none
  elseIf : Option PropValue := none
  otherwise : Option ElseBranch := none
  loop : Option Loop := none
  key : Option PropValue := none
  link : Option LinkTarget := none
  /-- changes to the element, by the surface on which it is shown -/
  platform : Option (Entries Json) := none

/-- An entry of a list of children. -/
inductive ChildItem where
  | text (s : String)
  | ref (r : DataRef)
  | node (n : Node)
  /-- a value that is none of these -/
  | other (v : Json)

/-- What stands in for an element whose conditions fail. -/
inductive ElseBranch where
  /-- nothing, whatever the flag says -/
  | flag (b : Bool)
  | node (n : Node)

/-- A node of a schema tree: an element, or the element of a component. -/
structure Node where
  component : Option Component := none
  element : Element

end

instance : Inhabited Node := ⟨{ element := { type := "" } }⟩

/-! ### Elements and their children -/

/-- The node in an entry. -/
def ChildItem.node? : ChildItem → Option Node
  | node n => some n
  | _ => none

namespace Element

/-- The entries of the list of children. -/
def items (e : Element) : List ChildItem := e.children.getD []

/-- Change the list of children. An element without one gets a list. -/
def withItems (f : List ChildItem → List ChildItem) (e : Element) : Element :=
  { e with children := some (f e.items) }

/-- Set a prop. -/
def withProp (name : String) (value : PropValue) (e : Element) : Element :=
  { e with props := e.props.insert name value }

end Element

namespace Node

/-- The id of a node: that of the component, if it is one. -/
def id (n : Node) : String :=
  match n.component with
  | some c => c.id
  | none => n.element.id

/-- The type of the element. -/
def type (n : Node) : String := n.element.type

/-- The entries of the list of children. -/
def items (n : Node) : List ChildItem := n.element.items

/-- Change the element. -/
def withElement (f : Element → Element) (n : Node) : Node := { n with element := f n.element }

/-- Change the list of children. -/
def withItems (f : List ChildItem → List ChildItem) (n : Node) : Node :=
  n.withElement (Element.withItems f)

/-- The node at a position of the list of children. -/
def child? (n : Node) (i : Nat) : Option Node := n.items[i]?.bind ChildItem.node?

/-- The positions at which the list of children has nodes. -/
def childPositions (n : Node) : List Nat :=
  (List.range n.items.length).filter fun i => (n.child? i).isSome

/-- There is a node among the children. -/
def hasChildNodes (n : Node) : Bool := n.items.any fun item => item.node?.isSome

mutual

/-- How many nodes there are in the tree of a node, itself included. -/
def size : Node → Nat
  | { element, .. } => sizeOfElement element

/-- The size of a node with this element. -/
def sizeOfElement : Element → Nat
  | { children := some items, .. } => 1 + sizeOfItems items
  | { children := none, .. } => 1

/-- The sizes of the nodes in a list, added up. -/
def sizeOfItems : List ChildItem → Nat
  | [] => 0
  | item :: rest => sizeOfItem item + sizeOfItems rest

/-- The size of the node in an entry. -/
def sizeOfItem : ChildItem → Nat
  | .node n => size n
  | _ => 0

end

end Node

end SchemaCanvas
