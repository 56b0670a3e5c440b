import SchemaCanvas.Proofs.Edit.Surgery

/-!
# Finding nodes by id

`Node.pathOf?` goes through a tree and its lists of children side by side. Here it is taken one
level at a time: the node itself, or the first child in which the id is found.

* `Node.pathOf?_eq` : the search at one node;
* `Node.exists_pathOf?_iff` : an id is found if and only if a node at a path has it;
* `Node.pathOf?_of_modify?` : a change that keeps the id of a node does not hide the node.
-/

namespace SchemaCanvas

namespace Node

theorem pathOf?_eq (id : String) (n : Node) :
    pathOf? id n = if n.id = id then some [] else pathInItems? id 0 n.items := by
  obtain ⟨component, element⟩ := n
  obtain ⟨_, _, _, children, _, _, _, _, _, _, _⟩ := element
  cases children <;> rfl

/-- An id that is found in a list is found in one of its nodes, and would be found in any other node
that stood there and had it in the same place. -/
theorem exists_child_of_pathInItems? {id : String} {items : List ChildItem} {start : Nat}
    {path : Path} (h : pathInItems? id start items = some path) :
    ∃ i rest child, path = (start + i) :: rest ∧ items[i]? = some (.node child) ∧
      pathOf? id child = some rest ∧
      ∀ other, pathOf? id other = some rest →
        pathInItems? id start (items.set i (.node other)) = some path := by
  induction items generalizing start with
  | nil => cases h
  | cons item items ih =>
    rw [pathInItems?] at h
    cases hitem : pathInItem? id item with
    | some rest =>
      rw [hitem] at h
      obtain rfl := Option.some.inj h
      cases item with
      | node child =>
        refine ⟨0, rest, child, rfl, rfl, hitem, fun other hother => ?_⟩
        rw [List.set_cons_zero, pathInItems?, pathInItem?, hother]
      | text | ref | other => cases hitem
    | none =>
      rw [hitem] at h
      obtain ⟨i, rest, child, rfl, hchild, hrest, hset⟩ := ih h
      refine ⟨i + 1, rest, child, ?_, hchild, hrest, fun other hother => ?_⟩
      · rw [Nat.add_right_comm, Nat.add_assoc]
      · rw [List.set_cons_succ, pathInItems?, hitem]
        exact hset other hother

theorem exists_get?_of_pathOf? {tree : Node} {id : String} {path : Path}
    (h : pathOf? id tree = some path) : ∃ n, tree.get? path = some n ∧ n.id = id := by
  induction path generalizing tree with
  | nil =>
    rw [pathOf?_eq] at h
    split_ifs at h with hid
    · exact ⟨tree, rfl, hid⟩
    · obtain ⟨_, _, _, habsurd, -⟩ := exists_child_of_pathInItems? h
      cases habsurd
  | cons i path ih =>
    rw [pathOf?_eq] at h
    split_ifs at h with hid
    · cases h
    obtain ⟨j, rest, child, hcons, hchild, hrest, -⟩ := exists_child_of_pathInItems? h
    obtain ⟨rfl, rfl⟩ := List.cons.inj hcons
    obtain ⟨n, hn, hid⟩ := ih hrest
    refine ⟨n, ?_, hid⟩
    rw [Nat.zero_add, get?, child?, hchild]
    exact hn

theorem isSome_pathInItems? {id : String} {items : List ChildItem} {child : Node}
    (hchild : .node child ∈ items) (h : (pathOf? id child).isSome) (start : Nat) :
    (pathInItems? id start items).isSome := by
  induction items generalizing start with
  | nil => cases hchild
  | cons item items ih =>
    rw [pathInItems?]
    cases hitem : pathInItem? id item with
    | some rest => rfl
    | none =>
      rcases List.mem_cons.1 hchild with rfl | hchild
      · rw [pathInItem?] at hitem
        rw [hitem] at h
        cases h
      · exact ih hchild (start + 1)

theorem exists_pathOf?_iff {tree : Node} {id : String} :
    (∃ path, pathOf? id tree = some path) ↔ ∃ path n, tree.get? path = some n ∧ n.id = id := by
  constructor
  · rintro ⟨path, h⟩
    exact ⟨path, exists_get?_of_pathOf? h⟩
  · rintro ⟨path, n, hget, rfl⟩
    rw [← Option.isSome_iff_exists]
    induction path generalizing tree with
    | nil =>
      obtain rfl := Option.some.inj hget
      rw [pathOf?_eq, if_pos rfl]
      rfl
    | cons i path ih =>
      obtain ⟨child, hchild, hget⟩ := Option.bind_eq_some_iff.1 hget
      rw [pathOf?_eq]
      split_ifs with hid
      · rfl
      · have hmem : .node child ∈ tree.items := List.mem_of_getElem? (getElem?_of_child? hchild)
        exact isSome_pathInItems? hmem (ih hget) 0

/-- **A change that keeps the ids of nodes does not hide the node that it changes.** -/
theorem pathOf?_of_modify? {f : Node → Node} (hf : ∀ n, (f n).id = n.id) {tree new : Node}
    {id : String} {path : Path} (hpath : pathOf? id tree = some path)
    (hnew : tree.modify? f path = some new) : pathOf? id new = some path := by
  induction path generalizing tree new with
  | nil =>
    obtain rfl := Option.some.inj hnew
    rw [pathOf?_eq] at hpath ⊢
    split_ifs at hpath with hid
    · rw [if_pos ((hf tree).trans hid)]
    · obtain ⟨_, _, _, habsurd, -⟩ := exists_child_of_pathInItems? hpath
      cases habsurd
  | cons i path ih =>
    rw [pathOf?_eq] at hpath
    split_ifs at hpath with hid
    · cases hpath
    obtain ⟨j, rest, child, hcons, hchild, hrest, hset⟩ := exists_child_of_pathInItems? hpath
    obtain ⟨rfl, rfl⟩ := List.cons.inj hcons
    rw [Nat.zero_add] at hnew hset ⊢
    have hchild : tree.child? j = some child := by rw [child?, hchild]; rfl
    rw [modify?, hchild, Option.bind_some] at hnew
    obtain ⟨changed, hchanged, rfl⟩ := Option.map_eq_some_iff.1 hnew
    -- the nodes that are searched before the child are the same as before
    have hid : (tree.setItem j (.node changed)).id ≠ id := hid
    rw [pathOf?_eq, if_neg hid]
    exact hset changed (ih hrest hchanged)

end Node

end SchemaCanvas
