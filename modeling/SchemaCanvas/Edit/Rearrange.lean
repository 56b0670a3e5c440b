import SchemaCanvas.Schema.Path

/-!
# Rearranging a tree

Entries of lists of children are removed, inserted, exchanged and carried to another list. Carrying
a node keeps the gap that was pointed at: removing the node first shifts the positions behind it, in
the path to the new list as well as in the list itself.
-/

namespace SchemaCanvas

/-- The path to the list that holds a node, and its position there. The root is in no list. -/
def Path.split? (path : Path) : Option (Path × Nat) :=
  path.getLast?.map fun i => (path.dropLast, i)

namespace ChildItem

/-- Exchange two entries of a list. -/
def swap (i j : Nat) (items : List ChildItem) : List ChildItem :=
  match items[i]?, items[j]? with
  | some a, some b => (items.set i b).set j a
  | _, _ => items

end ChildItem

namespace Node

/-- Take out the entry at a path. -/
def eraseItem? (tree : Node) (path : Path) : Option Node := do
  let (parent, i) ← path.split?
  tree.modify? (withItems fun items => items.eraseIdx i) parent

/-- Put a node into a list of children, at the end if the list is shorter. -/
def insertChild? (tree : Node) (parent : Path) (i : Nat) (child : Node) : Option Node :=
  tree.modify? (withItems fun items => items.insertIdx (min i items.length) (.node child)) parent

/-- Exchange two children of a node. The flag says whether both are there; the node gets a list of
children in any case. -/
def swapChildren (tree : Node) (parent : Path) (i j : Nat) : Node × Bool :=
  match tree.get? parent with
  | none => (tree, false)
  | some n =>
    let present := i < n.items.length && j < n.items.length
    ((tree.modify? (withItems (ChildItem.swap i j)) parent).getD tree, present)

end Node

namespace Path

/-- A path as it is after the entry at `removed` has been taken out. -/
def afterRemoval : (removed path : Path) → Path
  | [i], j :: rest => (if i < j then j - 1 else j) :: rest
  | i :: removed, j :: rest => if i = j then j :: afterRemoval removed rest else j :: rest
  | _, path => path

end Path

namespace Node

/-- Carry the node at `source` to a gap in the children of the node at `parent`. The result is the
new tree and the new path of the node. The root cannot be carried, and no node into itself. -/
def relocate? (tree : Node) (source parent : Path) (gap : Nat) : Option (Node × Path) := do
  let (home, own) ← source.split?
  if source.isPrefixOf parent then none
  else
    let target ← tree.get? parent
    let node ← tree.get? source
    let rest ← tree.eraseItem? source
    let gap := min gap target.items.length
    let i := if home = parent ∧ own < gap then gap - 1 else gap
    let parent := Path.afterRemoval source parent
    let tree ← rest.insertChild? parent i node
    some (tree, parent ++ [i])

end Node

end SchemaCanvas
