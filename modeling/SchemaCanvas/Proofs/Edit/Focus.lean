import SchemaCanvas.Proofs.Edit.Duplicate

/-!
# A node and the tree around it

To change a node in place, one follows a path through the lists of children that the elements hold,
and keeps the way back. `Node.focus?` does that: it gives the node at a path and the tree around it,
as a function of what stands there. Reading goes another way, through the entries of an element, of
which there are none where there is no list. Both ways lead to the same nodes.

What is put in the focus is found at the path. Of a node beside the path nothing changes, and of a
node above it only the entry on the way. So an edit of one node leaves the rest of the tree alone.

* `Node.childFocus?_eq`, `Node.map_node_focus?` : the two ways;
* `Node.modify?_eq` : a change at a path is a change in the focus;
* `Node.get?_modify?_of_apart`, `Node.exists_entry_of_modify?` : what a change leaves beside the
  path and above it;
* `Node.focus?_put` : the tree around a node does not depend on the node;
* `Node.lawful_focus?` : the laws of the focus.
-/

namespace SchemaCanvas

/-- A node in a tree. -/
structure Focus where
  node : Node
  /-- the tree with a node in this place -/
  put : Node → Node

namespace Node

variable {tree new n : Node} {f : Node → Node} {path p q : Path} {i : Nat}

/-- Put a list in the place of the list of children. -/
def withChildren (items : List ChildItem) (n : Node) : Node :=
  { n with element := { n.element with children := some items } }

/-- The child at a position of the list that an element holds, if it holds one. -/
def childFocus? (n : Node) (i : Nat) : Option Focus :=
  match n.element.children with
  | none => none
  | some items =>
    match items[i]? with
    | some (.node c) => some ⟨c, fun d => n.withChildren (items.set i (.node d))⟩
    | _ => none

/-- The node at a path, in its tree. -/
def focus? (n : Node) : Path → Option Focus
  | [] => some ⟨n, fun d => d⟩
  | i :: rest =>
    (n.childFocus? i).bind fun child =>
      (child.node.focus? rest).map fun spot => ⟨spot.node, fun d => child.put (spot.put d)⟩

/-! ### Two ways to a node -/

theorem exists_children_of_child? {c : Node} (h : n.child? i = some c) :
    ∃ items, n.element.children = some items ∧ items[i]? = some (.node c) ∧
      ∀ item, n.setItem i item = n.withChildren (items.set i item) := by
  have hitem := getElem?_of_child? h
  rw [items, Element.items] at hitem
  cases hchildren : n.element.children with
  | none =>
    rw [hchildren] at hitem
    cases hitem
  | some items =>
    rw [hchildren] at hitem
    refine ⟨items, rfl, hitem, fun item => ?_⟩
    rw [setItem, withItems, withElement, Element.withItems, Element.items, hchildren]
    rfl

theorem childFocus?_eq (n : Node) (i : Nat) :
    n.childFocus? i = (n.child? i).map fun c => ⟨c, fun d => n.setItem i (.node d)⟩ := by
  cases hc : n.child? i with
  | some c =>
    obtain ⟨items, hchildren, hitem, hset⟩ := exists_children_of_child? hc
    simp only [childFocus?, hchildren, hitem, hset, Option.map_some]
  | none =>
    rw [child?, items, Element.items] at hc
    cases hchildren : n.element.children with
    | none => rw [childFocus?, hchildren]; rfl
    | some items =>
      rw [hchildren, Option.getD_some] at hc
      rw [childFocus?, hchildren]
      dsimp only
      cases hitem : items[i]? with
      | none => rfl
      | some item =>
        rw [hitem] at hc
        cases item with
        | node c => cases hc
        | text | ref | other => rfl

/-- **Both ways lead to the same node,** where there is one. -/
theorem map_node_focus? (tree : Node) (path : Path) :
    (tree.focus? path).map Focus.node = tree.get? path := by
  induction path generalizing tree with
  | nil => rfl
  | cons i path ih =>
    rw [focus?, get?, childFocus?_eq]
    cases tree.child? i with
    | none => rfl
    | some c =>
      rw [Option.map_some, Option.bind_some, Option.map_map, Option.bind_some, ← ih c]
      rfl

/-- **A change at a path** is one of the node in the focus. -/
theorem modify?_eq (f : Node → Node) (tree : Node) (path : Path) :
    tree.modify? f path = (tree.focus? path).map fun spot => spot.put (f spot.node) := by
  induction path generalizing tree with
  | nil => rfl
  | cons i path ih =>
    rw [modify?, focus?, childFocus?_eq]
    cases tree.child? i with
    | none => rfl
    | some c =>
      rw [Option.bind_some, ih c, Option.map_some, Option.bind_some, Option.map_map, Option.map_map]
      rfl

theorem get?_of_focus? {spot : Focus} (h : tree.focus? path = some spot) :
    tree.get? path = some spot.node := by
  rw [← map_node_focus?, h, Option.map_some]

theorem modify?_of_focus? {spot : Focus} (h : tree.focus? path = some spot) (f : Node → Node) :
    tree.modify? f path = some (spot.put (f spot.node)) := by
  rw [modify?_eq, h, Option.map_some]

/-! ### Around the focus -/

theorem focus?_put {spot : Focus} (h : tree.focus? path = some spot) (d : Node) :
    (spot.put d).focus? path = some ⟨d, spot.put⟩ := by
  induction path generalizing tree spot with
  | nil =>
    obtain rfl := Option.some.inj h
    rfl
  | cons i path ih =>
    rw [focus?, childFocus?_eq] at h
    obtain ⟨child, hchild, h⟩ := Option.bind_eq_some_iff.1 h
    obtain ⟨c, hc, rfl⟩ := Option.map_eq_some_iff.1 hchild
    obtain ⟨below, hbelow, rfl⟩ := Option.map_eq_some_iff.1 h
    -- the child on the way is replaced twice
    rw [focus?, childFocus?_eq, child?_setItem hc, Option.map_some, Option.bind_some, ih hbelow,
      Option.map_some]
    simp only [setItem_setItem]

theorem get?_modify?_of_apart (hnew : tree.modify? f p = some new) (hp : ¬ p <+: q)
    (hq : ¬ q <+: p) : new.get? q = tree.get? q := by
  induction p generalizing tree new q with
  | nil => exact absurd List.nil_prefix hp
  | cons i p ih =>
    obtain ⟨c, changed, hc, hchanged, rfl⟩ := modify?_cons_eq_some_iff.1 hnew
    cases q with
    | nil => exact absurd List.nil_prefix hq
    | cons j q =>
      rw [get?, get?]
      by_cases hij : i = j
      · -- towards the change
        subst hij
        rw [child?_setItem hc, hc]
        exact ih hchanged (fun h => hp (List.cons_prefix_cons.2 ⟨rfl, h⟩))
          fun h => hq (List.cons_prefix_cons.2 ⟨rfl, h⟩)
      · rw [child?_setItem_of_ne hij]

/-- **A node above a change** has another entry on the way to it, and is as it was otherwise. -/
theorem exists_entry_of_modify? {below : Path}
    (hnew : tree.modify? f (q ++ i :: below) = some new) :
    ∃ n items c changed, tree.get? q = some n ∧ n.element.children = some items ∧
      items[i]? = some (.node c) ∧ c.modify? f below = some changed ∧
      new.get? q = some (n.withChildren (items.set i (.node changed))) := by
  obtain ⟨node, hnode⟩ := exists_get?_of_modify? hnew
  rw [get?_append] at hnode
  obtain ⟨n, hn, -⟩ := Option.bind_eq_some_iff.1 hnode
  obtain ⟨m, hm, hget⟩ := exists_of_modify?_append hnew hn
  obtain ⟨c, changed, hc, hchanged, rfl⟩ := modify?_cons_eq_some_iff.1 hm
  obtain ⟨items, hchildren, hitem, hset⟩ := exists_children_of_child? hc
  exact ⟨n, items, c, changed, hn, hchildren, hitem, hchanged, hget.trans (by rw [hset])⟩

/-- **The focus is lawful.** It is at the node that is read at the path, and there is one if a node
is read there. A change of this node gives a tree in which the changed node is read at the path, and
from which the focus has the same tree around it. Apart from the path the new tree reads the same;
a node above it has another entry on the way, and is otherwise the same. What is not changed leaves
the tree as it was. -/
theorem lawful_focus? (tree : Node) (p : Path) :
    (tree.focus? p).map Focus.node = tree.get? p ∧
    (∀ f, tree.modify? f p = (tree.focus? p).map fun spot => spot.put (f spot.node)) ∧
    ∀ spot ∈ tree.focus? p, ∀ f : Node → Node,
      (spot.put (f spot.node)).get? p = some (f spot.node) ∧
      (spot.put (f spot.node)).focus? p = some ⟨f spot.node, spot.put⟩ ∧
      (f spot.node = spot.node → spot.put (f spot.node) = tree) ∧
      (∀ q, ¬ p <+: q → ¬ q <+: p → (spot.put (f spot.node)).get? q = tree.get? q) ∧
      ∀ q i below, p = q ++ i :: below → ∃ n items c changed, tree.get? q = some n ∧
        n.element.children = some items ∧ items[i]? = some (.node c) ∧
        c.modify? f below = some changed ∧
        (spot.put (f spot.node)).get? q =
          some { n with element :=
            { n.element with children := some (items.set i (.node changed)) } } := by
  refine ⟨map_node_focus? tree p, fun f => modify?_eq f tree p, fun spot hspot f => ?_⟩
  have hnode := get?_of_focus? hspot
  have hnew := modify?_of_focus? hspot f
  have hput := focus?_put hspot (f spot.node)
  refine ⟨get?_of_focus? hput, hput, fun hself => ?_, fun q => get?_modify?_of_apart hnew, ?_⟩
  · exact Option.some.inj (hnew.symm.trans (modify?_self hnode hself))
  · rintro q i below rfl
    exact exists_entry_of_modify? hnew

/-- A paragraph with a word in it. -/
def wordParagraph : Node where
  element := {
    id := "line", type := "p"
    children := some [.node { element := { id := "word", type := "b" } }] }

/-- A card with a text, the paragraph and an image. -/
def labelCard : Node where
  component := some { id := "card" }
  element := {
    id := "box", type := "div"
    children := some [
      .text "label", .node wordParagraph, .node { element := { id := "photo", type := "img" } }] }

theorem lawful_focus?_labelCard :
    ∃ written word line, labelCard.modify? (withChildren [.text "new"]) [1, 0] = some written ∧
      labelCard.get? [1, 0] = some word ∧
      written.get? [1, 0] = some (word.withChildren [.text "new"]) ∧
      written.get? [2] = labelCard.get? [2] ∧ written.get? [0] = none ∧
      written.get? [1] = some line ∧ line.id = wordParagraph.id := by
  obtain ⟨hnode, hmodify, hlaws⟩ := lawful_focus? labelCard [1, 0]
  obtain ⟨spot, hspot⟩ : ∃ spot, labelCard.focus? [1, 0] = some spot := ⟨_, rfl⟩
  obtain ⟨hget, -, -, hapart, habove⟩ := hlaws spot hspot (withChildren [.text "new"])
  obtain ⟨n, items, c, changed, hn, -, -, -, hline⟩ := habove [1] 0 [] rfl
  obtain rfl : wordParagraph = n := Option.some.inj hn
  rw [hspot] at hnode hmodify
  exact ⟨_, _, _, hmodify _, hnode.symm, hget, hapart [2] (by decide) (by decide),
    hapart [0] (by decide) (by decide), hline, rfl⟩

end Node

end SchemaCanvas
