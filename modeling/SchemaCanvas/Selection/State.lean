import SchemaCanvas.Schema.Codec
import SchemaCanvas.Selection.Target

/-!
# The selection

A session has one selected and one hovered node, a level and a clipboard. A node can be selected at
the level that is one less than the length of its path, so that a click picks siblings and a double
click drills in. Every operation gives the next state and says what it has done.

* `SelectionState.click`, `doubleClick` and `hover` answer the pointer, on any tree in which nodes
  can be looked up;
* `selectFirstChild`, `selectParent`, `selectSibling` and `escape` answer the keyboard;
* `revalidate` follows the selected nodes through a change of the tree.

A selection is written as an object and read from any form of a record; reading gives back what was
written (`Selection.ofJson?_toJson`).
-/

namespace SchemaCanvas

/-- A selected node: its id, and the path at which it was selected. -/
structure Selection where
  id : String
  path : Path
deriving DecidableEq

namespace Selection

/-- The path of a selected node in a tree as it is now. The id counts; the path only where the id is
not found. -/
def locate? (sel : Selection) (tree : Node) : Option Path :=
  match tree.pathOf? sel.id with
  | some path => some path
  | none => if tree.idAt? sel.path = some sel.id then some sel.path else none

/-- A selection read from a record. Both fields must be there. -/
def ofJson? (v : Json) : Option Selection := do
  let fields ← v.record? ["componentId", "path"]
  let id ← requiredText? fields "componentId"
  let path ← (fields.lookup "path").bind Path.ofJson?
  some { id, path }

/-- A selection as an object. -/
def toJson (sel : Selection) : Json :=
  .obj [("componentId", .str sel.id), ("path", sel.path.toJson)]

theorem ofJson?_toJson {sel : Selection} (h : ∀ i ∈ sel.path, i ≤ Word.maxUnsigned) :
    ofJson? sel.toJson = some sel := by
  change ((some sel.path.toJson).bind Path.ofJson?).bind (fun path => some ⟨sel.id, path⟩) =
    some sel
  rw [Option.bind_some, Path.ofJson?_toJson h]
  rfl

end Selection

/-- The state of the selection. -/
structure SelectionState where
  selected : Option Selection := none
  hovered : Option Selection := none
  level : Nat := 0
  /-- the clipboard -/
  copied : Option Node := none
  enabled : Bool

namespace SelectionState

variable (s : SelectionState)

/-- The path of the selected node. -/
def selectedPath : Option Path := s.selected.map Selection.path

/-- A node at this path can be selected at the present level. -/
def isSelectable (path : Path) : Bool := path.length == s.level + 1

/-- The node with an id is selected. -/
def isSelected (id : String) : Bool := s.selected.any fun sel => sel.id = id

/-- The node with an id is hovered. -/
def isHovered (id : String) : Bool := s.hovered.any fun sel => sel.id = id

/-- Nothing is selected or hovered. -/
def cleared : SelectionState := { s with selected := none, hovered := none }

/-- Select a node. The flag says whether that changes anything. -/
def select (id : String) (path : Path) : SelectionState × Bool :=
  if s.enabled && s.selected ≠ some ⟨id, path⟩ then
    ({ s with selected := some ⟨id, path⟩ }, true)
  else (s, false)

/-- Hover over a node, or over none. The flag says whether that changes anything. -/
def setHovered (id : Option String) (path : Path) : SelectionState × Bool :=
  let next := id.map fun id => (⟨id, path⟩ : Selection)
  if s.enabled && s.hovered ≠ next then ({ s with hovered := next }, true) else (s, false)

/-- Turn selection on or off. Without it nothing is selected. -/
def setEnabled (enabled : Bool) : SelectionState :=
  let s := { s with enabled }
  if enabled then s else s.cleared

/-- Go one level down, if the selected node has children there. -/
def toChildren (tree : Node) : SelectionState × Bool :=
  let node := s.selected.bind fun sel => (sel.locate? tree).bind tree.get?
  if node.any Node.hasChildNodes then ({ s.cleared with level := s.level + 1 }, true)
  else (s, false)

/-- Go one level up. -/
def toParent : SelectionState × Bool :=
  match s.level with
  | 0 => (s, false)
  | level + 1 => ({ s.cleared with level }, true)

/-! ### Pointer -/

/-- The path that a pointer at a path addresses; `direct` takes it as it is. -/
def pointerTarget (raw : Path) (direct : Bool) : Path :=
  if direct then raw else hoverTarget s.selectedPath raw

section

variable {T : Type} [Lookup T] (tree : T)

/-- Hover with the pointer. -/
def hover (raw : Path) (direct : Bool) : SelectionState × Bool :=
  let target := s.pointerTarget raw direct
  s.setHovered (Lookup.idAt? tree target) target

/-- Select the node at a path, at its level. The root is not selected in this way. -/
def commit (target : Path) : SelectionState × Option Selection :=
  if s.enabled && !target.isEmpty then
    match Lookup.idAt? tree target with
    | some id =>
      let next := ({ s with level := target.length - 1 }.select id target).1
      (next, next.selected)
    | none => (s, none)
  else (s, none)

/-- Click with the pointer. -/
def click (raw : Path) (direct : Bool) : SelectionState × Option Selection :=
  s.commit tree (s.pointerTarget raw direct)

/-- Click twice with the pointer. -/
def doubleClick (raw : Path) : SelectionState × Option Selection :=
  match doubleClickTarget? s.selectedPath raw with
  | some target => s.commit tree target
  | none => (s, none)

end

/-! ### Keyboard -/

/-- Clear the selection, or go one level up if nothing is selected. -/
def escape : SelectionState × Bool :=
  if s.selected.isSome then (s.cleared, true) else s.toParent

/-- Select the node at a path, at a level. -/
def selectAt (level : Nat) (id : String) (path : Path) : SelectionState × Option Selection :=
  let next := ({ s with level }.select id path).1
  (next, next.selected)

/-- The first child of the selected node: its id and its path. -/
def firstChild? (tree : Node) : Option (String × Path) := do
  let path ← (← s.selected).locate? tree
  let node ← tree.get? path
  let first ← node.childPositions.head?
  let child ← node.child? first
  some (child.id, path ++ [first])

/-- Select the first child of the selected node. -/
def selectFirstChild (tree : Node) : SelectionState × Option Selection :=
  match s.firstChild? tree with
  | some (id, path) => s.selectAt (path.length - 1) id path
  | none => (s, none)

/-- The parent of the selected node, unless it is the root. -/
def parent? (tree : Node) : Option (String × Path) := do
  let path ← (← s.selected).locate? tree
  let parent ← path.parent?
  if parent.isEmpty then none else some (← tree.idAt? parent, parent)

/-- Select the parent of the selected node. -/
def selectParent (tree : Node) : SelectionState × Option Selection :=
  match s.parent? tree with
  | some (id, path) => { s with hovered := none }.selectAt (path.length - 1) id path
  | none => (s, none)

/-- The next or the previous sibling of the selected node, going round at the ends. -/
def sibling? (tree : Node) (backwards : Bool) : Option (String × Path) := do
  let path ← (← s.selected).locate? tree
  let own ← path.getLast?
  let siblings := (← tree.get? path.dropLast).childPositions
  if siblings.length < 2 then none
  else
    let i ← siblings.idxOf? own
    let j := (if backwards then i + siblings.length - 1 else i + 1) % siblings.length
    let next := path.dropLast ++ [← siblings[j]?]
    some (← tree.idAt? next, next)

/-- Select the next or the previous sibling of the selected node. -/
def selectSibling (tree : Node) (backwards : Bool) : SelectionState × Option Selection :=
  match s.sibling? tree backwards with
  | some (id, path) => s.selectAt s.level id path
  | none => (s, none)

/-! ### Changes of the tree -/

/-- A selection after a change of the tree. It is lost if its id is gone, or is that of the root. -/
def follow? {T : Type} [Lookup T] (tree : T) (sel : Selection) : Option Selection :=
  ((Lookup.pathOf? tree sel.id).filter fun path => !path.isEmpty).map fun path => { sel with path }

/-- The state after a change of the tree. -/
def revalidate {T : Type} [Lookup T] (tree : T) : SelectionState :=
  let selected := s.selected.bind (follow? tree)
  { s with
    selected
    hovered := s.hovered.bind (follow? tree)
    level := match selected with
      | some sel => sel.path.length - 1
      | none => s.level }

end SelectionState

end SchemaCanvas
