import SchemaCanvas.Edit.Rearrange
import SchemaCanvas.Schema.Ident
import SchemaCanvas.Selection.State

/-!
# Operations on a tree

Every operation takes a tree and the selected node, and gives the next tree and what is selected
then, or says why it is rejected. Copies of nodes get new ids; the numbers of the draws for them are
handed on in `Edit.next`.

* `Edit.cut`, `paste`, `delete` and `duplicate` work on the selected node as a whole;
* `Edit.shift` moves it past a sibling, `Edit.carry` to any place of the tree;
* `Edit.content` changes the text and the class of a node.
-/

namespace SchemaCanvas

/-- The kinds of change to a tree. -/
inductive Operation where
  | cut
  | paste
  | delete
  | duplicate
  | move
  | edit
deriving DecidableEq

/-- The name of a kind of change. -/
def Operation.name : Operation → String
  | cut => "cut"
  | paste => "paste"
  | delete => "delete"
  | duplicate => "duplicate"
  | move => "move"
  | edit => "edit"

/-- All kinds of change. -/
def Operation.all : List Operation := [cut, paste, delete, duplicate, move, edit]

/-- The kind of change of a name. -/
def Operation.ofName? (name : String) : Option Operation := all.find? fun o => o.name = name

@[simp]
theorem Operation.ofName?_name (o : Operation) : ofName? o.name = some o := by cases o <;> rfl

/-- The directions in which a node moves past a sibling. -/
inductive Direction where
  | up
  | down
  | left
  | right
deriving DecidableEq

namespace Direction

/-- The name of a direction. -/
def name : Direction → String
  | up => "up"
  | down => "down"
  | left => "left"
  | right => "right"

/-- All directions. -/
def all : List Direction := [up, down, left, right]

/-- The direction of a name. -/
def ofName? (name : String) : Option Direction := all.find? fun d => d.name = name

@[simp]
theorem ofName?_name (d : Direction) : ofName? d.name = some d := by cases d <;> rfl

/-- The direction leads towards the first sibling. -/
def isBackward : Direction → Bool
  | up | left => true
  | down | right => false

end Direction

/-- An end of a list of siblings. -/
inductive Boundary where
  | first
  | last
deriving DecidableEq

/-- The name of an end. -/
def Boundary.name : Boundary → String
  | first => "first"
  | last => "last"

/-- Why an operation is rejected. -/
inductive EditError where
  | noSelection
  | rootNode (operation : Operation)
  | emptyClipboard
  | nodeNotFound (id : String)
  | noSiblings
  | atBoundary (boundary : Boundary)
  | notAContainer (type : String)
  | intoOwnSubtree
  | nothingToApply
deriving DecidableEq

/-- What the operator is told. -/
def EditError.message : EditError → String
  | noSelection => "Select a node first"
  | rootNode operation => s!"Cannot {operation.name} the root node"
  | emptyClipboard => "Nothing to paste: copy or cut a node first"
  | nodeNotFound id => s!"Node '{id}' no longer exists"
  | noSiblings => "This node has no siblings to move past"
  | atBoundary boundary => s!"Node is already the {boundary.name} of its siblings"
  | notAContainer type => s!"Cannot paste into a '{type}' node"
  | intoOwnSubtree => "Cannot move a node into itself"
  | nothingToApply => "No changes to apply"

/-- A change of the text or the class of a node, not yet made. -/
structure PendingEdit where
  id : String
  text : Option String := none
  className : Option String := none
deriving DecidableEq

/-- There is nothing to change. -/
def PendingEdit.isEmpty (e : PendingEdit) : Bool := e.text.isNone && e.className.isNone

/-- The result of an operation. -/
structure Edit where
  tree : Node
  selection : Option Selection
  operation : Operation
  /-- the number of the next draw of an id -/
  next : Nat

namespace Edit

/-- The types of elements that have no children. -/
def leafTypes : List String :=
  ["text", "span", "label", "image", "icon", "input", "textarea", "divider", "spacer", "checkbox",
    "switch"]

variable (next : Nat) (tree : Node) (selection : Option Selection)

/-- The path of the selected node. -/
def locate : Except EditError Path :=
  match selection with
  | none => .error .noSelection
  | some sel =>
    match sel.locate? tree with
    | some path => .ok path
    | none => .error (.nodeNotFound sel.id)

/-- The path of the selected node, which must not be the root. -/
def locateBelowRoot (operation : Operation) : Except EditError Path := do
  let path ← locate tree selection
  if path.isEmpty then .error (.rootNode operation) else .ok path

/-- The node at the path of the selected node. -/
def found (path : Path) : Except EditError Node :=
  match tree.get? path with
  | some n => .ok n
  | none => .error (match selection with
    | some sel => .nodeNotFound sel.id
    | none => .noSelection)

/-- A result that is there. -/
def present {α : Type} (v : Option α) (error : EditError) : Except EditError α :=
  match v with
  | some v => .ok v
  | none => .error error

/-- A copy of a node with new ids, and the number of the next draw. -/
def freshCopy (n : Node) : Node × Nat :=
  let (copy, pool) := n.renewIds { taken := tree.ids, next }
  (copy, pool.next)

/-- A node that can have children. -/
def container (n : Node) : Except EditError Unit :=
  if leafTypes.contains n.type then .error (.notAContainer n.type) else .ok ()

/-- The selected node, for the clipboard. -/
def copy : Except EditError Node := do
  let path ← locate tree selection
  found tree selection path

/-- Take out the selected node. The result holds that node too. -/
def remove (operation : Operation) : Except EditError (Edit × Node) := do
  let path ← locateBelowRoot tree selection operation
  let removed ← found tree selection path
  let tree ← present (tree.eraseItem? path) .noSelection
  .ok ({ tree, selection := none, operation, next }, removed)

/-- Take out the selected node, for the clipboard. -/
def cut : Except EditError (Edit × Node) := remove next tree selection .cut

/-- Take out the selected node. -/
def delete : Except EditError Edit := (remove next tree selection .delete).map Prod.fst

/-- Add a copy of the node on the clipboard behind the children of the selected node. -/
def paste (clipboard : Option Node) : Except EditError Edit := do
  let copied ← present clipboard .emptyClipboard
  let path ← locate tree selection
  let target ← present (tree.get? path) .noSelection
  container target
  let (copy, next) := freshCopy next tree copied
  let tree ← present (tree.insertChild? path target.items.length copy) .noSelection
  .ok { tree, selection := selection.map fun sel => { sel with path }, operation := .paste, next }

/-- Put a copy of the selected node behind it and select the copy. -/
def duplicate : Except EditError Edit := do
  let path ← locateBelowRoot tree selection .duplicate
  let node ← present (tree.get? path) .noSelection
  let (parent, i) ← present path.split? (.rootNode .duplicate)
  let (copy, next) := freshCopy next tree node
  let tree ← present (tree.insertChild? parent (i + 1) copy) .noSelection
  .ok { tree, selection := some ⟨copy.id, parent ++ [i + 1]⟩, operation := .duplicate, next }

/-- The sibling past which a node moves. Only siblings that are nodes count. -/
def neighbour (siblings : List Nat) (own : Nat) (direction : Direction) : Except EditError Nat := do
  if siblings.length ≤ 1 then .error .noSiblings
  else
    let i ← present (siblings.idxOf? own) .noSelection
    if direction.isBackward then
      match i with
      | 0 => .error (.atBoundary .first)
      | i + 1 => present siblings[i]? (.atBoundary .first)
    else present siblings[i + 1]? (.atBoundary .last)

/-- Exchange the selected node and its sibling in a direction. -/
def shift (direction : Direction) : Except EditError Edit := do
  let path ← locateBelowRoot tree selection .move
  let (parent, own) ← present path.split? (.rootNode .move)
  let siblings := (← present (tree.get? parent) .noSelection).childPositions
  let other ← neighbour siblings own direction
  let (tree, exchanged) := tree.swapChildren parent own other
  if exchanged then
    let path := parent ++ [other]
    .ok { tree, selection := some ⟨(tree.idAt? path).getD "", path⟩, operation := .move, next }
  else .error .noSelection

/-- Carry the selected node to a gap in the children of the node at `parent`. -/
def carry (parent : Path) (gap : Nat) : Except EditError Edit := do
  let path ← locateBelowRoot tree selection .move
  let target ← present (tree.get? parent) .noSelection
  container target
  let (tree, path) ← present (tree.relocate? path parent gap) .intoOwnSubtree
  .ok { tree, selection := some ⟨(tree.idAt? path).getD "", path⟩, operation := .move, next }

/-! ### Content -/

/-- The entry is a text. -/
def isText : ChildItem → Bool
  | .text _ => true
  | _ => false

/-- A list of children with one text in place of its texts. The new text stands where the first one
stood. Where there is none it stands first, and is alone unless there are nodes. -/
def replaceText (text : String) (items : List ChildItem) : List ChildItem :=
  let before := items.takeWhile fun item => !isText item
  match items.dropWhile fun item => !isText item with
  | _ :: after => before ++ .text text :: after.filter fun item => !isText item
  | [] => .text text :: if items.any fun item => item.node?.isSome then items else []

/-- An element with a changed text and class. -/
def applyTo (edit : PendingEdit) (e : Element) : Element :=
  let e := match edit.text with
    | some text => e.withItems (replaceText text)
    | none => e
  match edit.className with
  | some name => e.withProp "className" (.literal (.str name))
  | none => e

/-- Make a change to the content of a node, and select it. -/
def content (edit : PendingEdit) : Except EditError Edit := do
  if edit.isEmpty then .error .nothingToApply
  else
    let path ← present (tree.pathOf? edit.id) (.nodeNotFound edit.id)
    let tree ←
      present (tree.modify? (Node.withElement (applyTo edit)) path) (.nodeNotFound edit.id)
    .ok { tree, selection := some ⟨edit.id, path⟩, operation := .edit, next }

end Edit

end SchemaCanvas
