import SchemaCanvas.Render.Link
import SchemaCanvas.Render.Platform
import SchemaCanvas.Schema.Path

/-!
# Rendered trees

Rendering a schema tree gives a tree of texts, elements, loops and failures. All but the texts carry
the id of their schema node and the path at which they were rendered. A path counts positions in the
rendered tree: under a loop it counts the repetitions.

* `Output.nodes` lists a tree, every node before those below it;
* `Output.findById?` and `Output.findByPath?` search it; a search for a path enters only nodes on
  the way to it;
* `Output.textContent` is all text of a tree.
-/

namespace SchemaCanvas

/-- Why an element is not rendered. -/
inductive RenderFault where
  | tooDeep (limit : Nat)
  | platform (fault : PlatformFault)

/-- The description of a fault. -/
def RenderFault.message : RenderFault → String
  | tooDeep limit => s!"maximum render depth of {limit} exceeded"
  | platform fault => fault.message

mutual

/-- A rendered element. -/
structure OutputElement where
  id : String
  type : String
  /-- the type in the schema, if it is not known -/
  originalType : Option String
  key : Option String
  path : Path
  props : Entries Json
  children : List Output
  link : Option PendingLink

/-- One repetition of a loop. -/
structure Repetition where
  key : String
  index : Nat
  /-- nothing, if the repetition rendered nothing -/
  body : Option Output

/-- A rendered node. -/
inductive Output where
  | text (s : String)
  | element (e : OutputElement)
  | loop (id : String) (path : Path) (repetitions : List Repetition)
  /-- the place of an element that could not be rendered -/
  | failure (id type : String) (path : Path) (fault : RenderFault)

end

namespace Output

/-- The id of a node. Texts have none. -/
def id? : Output → Option String
  | text _ => none
  | element e => some e.id
  | loop id _ _ => some id
  | failure id _ _ _ => some id

/-- The path of a node. Texts have none. -/
def path? : Output → Option Path
  | text _ => none
  | element e => some e.path
  | loop _ path _ => some path
  | failure _ _ path _ => some path

/-- The nodes one level down. -/
def children : Output → List Output
  | element e => e.children
  | loop _ _ repetitions => repetitions.filterMap Repetition.body
  | text _ | failure .. => []

/-- The text of a node by itself. -/
def ownText : Output → String
  | text s => s
  | _ => ""

/-! ### Search -/

mutual

/-- All nodes of a tree, every node before those below it. -/
def nodes : Output → List Output
  | text s => [text s]
  | element ⟨id, type, originalType, key, path, props, children, link⟩ =>
    element ⟨id, type, originalType, key, path, props, children, link⟩ :: nodesOfItems children
  | loop id path repetitions => loop id path repetitions :: nodesOfRepetitions repetitions
  | failure id type path fault => [failure id type path fault]

/-- All nodes of a list of trees. -/
def nodesOfItems : List Output → List Output
  | [] => []
  | o :: rest => nodes o ++ nodesOfItems rest

/-- All nodes of repetitions. -/
def nodesOfRepetitions : List Repetition → List Output
  | [] => []
  | ⟨_, _, none⟩ :: rest => nodesOfRepetitions rest
  | ⟨_, _, some o⟩ :: rest => nodes o ++ nodesOfRepetitions rest

end

/-- The first node with an id. -/
def findById? (o : Output) (id : String) : Option Output := o.nodes.find? fun o => o.id? = some id

/-- All text of a tree. -/
def textContent (o : Output) : String := String.join (o.nodes.map ownText)

mutual

/-- The node at a path. Nodes that are not on the way to the path are not entered. -/
def findByPath? (path : Path) : Output → Option Output
  | text _ => none
  | element ⟨id, type, originalType, key, own, props, children, link⟩ =>
    if own = path then some (element ⟨id, type, originalType, key, own, props, children, link⟩)
    else if own.isPrefixOf path then findInItems? path children
    else none
  | loop id own repetitions =>
    if own = path then some (loop id own repetitions)
    else if own.isPrefixOf path then findInRepetitions? path repetitions
    else none
  | failure id type own fault => if own = path then some (failure id type own fault) else none

/-- The node at a path in a list of trees. -/
def findInItems? (path : Path) : List Output → Option Output
  | [] => none
  | o :: rest => (findByPath? path o).or (findInItems? path rest)

/-- The node at a path in repetitions. -/
def findInRepetitions? (path : Path) : List Repetition → Option Output
  | [] => none
  | ⟨_, _, none⟩ :: rest => findInRepetitions? path rest
  | ⟨_, _, some o⟩ :: rest => (findByPath? path o).or (findInRepetitions? path rest)

end

instance : Lookup Output where
  pathOf? o id := (o.findById? id).bind path?
  idAt? o path := (o.findByPath? path).bind id?

/-! ### Written form -/

/-- A path as a value. -/
def pathToJson (path : Path) : Json := .arr (path.map Json.ofNat)

mutual

/-- A rendered tree as a value. -/
def toJson : Output → Json
  | text s => Json.object [("kind", .str "text"), ("text", .str s)]
  | element ⟨id, type, originalType, key, path, props, children, link⟩ =>
    Json.object ([("kind", .str "element"), ("id", .str id), ("type", .str type)] ++
      givenField "originalType" (originalType.map .str) ++ givenField "key" (key.map .str) ++
      [("path", pathToJson path), ("props", .obj props),
        ("children", .arr (itemsToJson children))] ++
      givenField "link" (link.map fun l => .obj [("target", l.target.encode Json.object)]))
  | loop id path repetitions =>
    Json.object [("kind", .str "loop"), ("id", .str id), ("path", pathToJson path),
      ("iterations", .arr (repetitionsToJson repetitions))]
  | failure id type path fault =>
    Json.object [("kind", .str "renderError"), ("id", .str id), ("type", .str type),
      ("path", pathToJson path), ("message", .str fault.message)]

/-- Rendered trees as values. -/
def itemsToJson : List Output → List Json
  | [] => []
  | o :: rest => toJson o :: itemsToJson rest

/-- Repetitions as values. -/
def repetitionsToJson : List Repetition → List Json
  | [] => []
  | ⟨key, index, body⟩ :: rest =>
    Json.object [("key", .str key), ("index", .ofNat index),
      ("node", match body with | some o => toJson o | none => .null)] :: repetitionsToJson rest

end

end Output

end SchemaCanvas
