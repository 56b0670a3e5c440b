import SchemaCanvas.Proofs.Edit.Surgery
import SchemaCanvas.Schema.Ident
import Mathlib.Data.List.Perm.Basic

/-!
# The ids of a rearranged tree

`Node.idPlaces` lists the ids of a tree in the order node, inner element, `else` branch, children.
This file says how the list changes when the tree is edited:

* `Node.idPlaces_of_modify?` : what stands around a node in the list stays when the node is
  changed;
* `Node.idPlaces_eraseItem?` and `Node.idPlaces_insertChild?` : taking out a node takes out its
  ids, putting one in adds its ids;
* `Node.idPlaces_swapChildren` and `Node.idPlaces_relocate?` : moving nodes within a tree
  rearranges its ids and neither adds nor drops any.

The last three hold up to the order of the list.
-/

namespace SchemaCanvas

open scoped List

namespace Node

/-! ### A node and its children -/

/-- The ids of a tree that do not lie below its children: those of the root, and all below its
`else` branch. -/
def rootPlaces : Node → List (IdRole × String)
  | ⟨component, element⟩ =>
    (match component with
      | some c => [(.node, c.id), (.render, element.id)]
      | none => [(.node, element.id)]) ++
    (match element.otherwise with
      | some branch => idPlacesOfBranch branch
      | none => [])

theorem idPlaces_eq (n : Node) : n.idPlaces = n.rootPlaces ++ idPlacesOfItems n.items := by
  obtain ⟨component, id, type, props, children, condition, elseIf, otherwise, loop, key, link,
    platform⟩ := n
  cases component <;> cases otherwise <;> cases children <;>
    simp [idPlaces, idPlacesBelow, rootPlaces, items, Element.items, idPlacesOfItems]

@[simp]
theorem rootPlaces_withItems (f : List ChildItem → List ChildItem) (n : Node) :
    (n.withItems f).rootPlaces = n.rootPlaces := by
  cases n
  rfl

theorem idPlaces_withItems (f : List ChildItem → List ChildItem) (n : Node) :
    (n.withItems f).idPlaces = n.rootPlaces ++ idPlacesOfItems (f n.items) := by
  rw [idPlaces_eq, rootPlaces_withItems, items_withItems]

theorem idPlacesOfItems_eq_flatMap (items : List ChildItem) :
    idPlacesOfItems items = items.flatMap idPlacesOfItem := by
  induction items with
  | nil => rfl
  | cons item items ih => rw [idPlacesOfItems, ih, List.flatMap_cons]

theorem idPlacesOfItems_append (as bs : List ChildItem) :
    idPlacesOfItems (as ++ bs) = idPlacesOfItems as ++ idPlacesOfItems bs := by
  simp only [idPlacesOfItems_eq_flatMap, List.flatMap_append]

theorem idPlacesOfItems_perm {as bs : List ChildItem} (h : as ~ bs) :
    idPlacesOfItems as ~ idPlacesOfItems bs := by
  simpa only [idPlacesOfItems_eq_flatMap] using h.flatMap_right idPlacesOfItem

theorem idPlacesOfItem_of_node?_eq_none {item : ChildItem} (h : item.node? = none) :
    idPlacesOfItem item = [] := by
  cases item with
  | node n => cases h
  | text | ref | other => rfl

theorem idPlacesOfItems_filter (keep : ChildItem → Bool) {items : List ChildItem}
    (h : ∀ item ∈ items, keep item = false → item.node? = none) :
    idPlacesOfItems (items.filter keep) = idPlacesOfItems items := by
  induction items with
  | nil => rfl
  | cons item items ih =>
    have ih := ih fun other hother => h other (List.mem_cons_of_mem item hother)
    cases hk : keep item with
    | true => rw [List.filter_cons_of_pos hk, idPlacesOfItems, idPlacesOfItems, ih]
    | false =>
      have hnone := idPlacesOfItem_of_node?_eq_none (h item List.mem_cons_self hk)
      rw [List.filter_cons_of_neg (by simp [hk]), idPlacesOfItems, ih, hnone, List.nil_append]

theorem idPlaces_withProp (name : String) (value : PropValue) (n : Node) :
    (n.withElement (Element.withProp name value)).idPlaces = n.idPlaces := by
  obtain ⟨component, id, type, props, children, condition, elseIf, otherwise, loop, key, link,
    platform⟩ := n
  cases component <;> rfl

/-! ### A tree around a node -/

/-- **A change of a node is local in the list of ids.** What stands before and behind the ids of the
node at a path is the same whatever the node is changed into. -/
theorem idPlaces_of_modify? {tree node : Node} {path : Path} (h : tree.get? path = some node) :
    ∃ before after, tree.idPlaces = before ++ node.idPlaces ++ after ∧
      ∀ f new, tree.modify? f path = some new →
        new.idPlaces = before ++ (f node).idPlaces ++ after := by
  induction path generalizing tree with
  | nil =>
    obtain rfl := Option.some.inj h
    refine ⟨[], [], by simp, fun f new hnew => ?_⟩
    rw [← Option.some.inj hnew]
    simp
  | cons i path ih =>
    rw [get?] at h
    obtain ⟨child, hchild, hnode⟩ := Option.bind_eq_some_iff.1 h
    obtain ⟨before, after, htree, hnew⟩ := ih hnode
    obtain ⟨hi, hitem⟩ := List.getElem?_eq_some_iff.1 (getElem?_of_child? hchild)
    -- the list of children, taken apart at the child on the way
    have hset (c : Node) :
        tree.items.set i (.node c) = tree.items.take i ++ .node c :: tree.items.drop (i + 1) := by
      rw [List.set_eq_take_append_cons_drop, if_pos hi]
    have hplaces (c : Node) : (tree.setItem i (.node c)).idPlaces =
        tree.rootPlaces ++ idPlacesOfItems (tree.items.take i) ++ c.idPlaces ++
          idPlacesOfItems (tree.items.drop (i + 1)) := by
      rw [setItem, idPlaces_withItems, hset, idPlacesOfItems_append, idPlacesOfItems,
        idPlacesOfItem]
      simp only [List.append_assoc]
    have hself : (tree.setItem i (.node child)).idPlaces = tree.idPlaces := by
      rw [setItem, idPlaces_withItems, ← hitem, List.set_getElem_self, ← idPlaces_eq]
    refine ⟨tree.rootPlaces ++ idPlacesOfItems (tree.items.take i) ++ before,
      after ++ idPlacesOfItems (tree.items.drop (i + 1)), ?_, fun f new h => ?_⟩
    · rw [← hself, hplaces, htree]
      simp only [List.append_assoc]
    · rw [modify?, hchild, Option.bind_some] at h
      obtain ⟨changed, hchanged, rfl⟩ := Option.map_eq_some_iff.1 h
      rw [hplaces, hnew f changed hchanged]
      simp only [List.append_assoc]

theorem idPlaces_modify?_perm {tree node new : Node} {f : Node → Node} {path : Path}
    (h : tree.modify? f path = some new) (hnode : tree.get? path = some node)
    (hf : (f node).idPlaces ~ node.idPlaces) : new.idPlaces ~ tree.idPlaces := by
  obtain ⟨before, after, htree, hnew⟩ := idPlaces_of_modify? hnode
  rw [hnew f new h, htree]
  exact (hf.append_left before).append_right after

/-! ### Rearranged trees -/

/-- What is added inside a list is added to the list, up to its order. -/
private theorem perm_inside {α : Type} {xs ys extra : List α} (h : xs ~ extra ++ ys)
    (before after : List α) : before ++ xs ++ after ~ extra ++ (before ++ ys ++ after) := by
  calc before ++ xs ++ after
      ~ before ++ (extra ++ ys) ++ after := (h.append_left before).append_right after
    _ = before ++ extra ++ (ys ++ after) := by simp only [List.append_assoc]
    _ ~ extra ++ before ++ (ys ++ after) := List.perm_append_comm.append_right _
    _ = extra ++ (before ++ ys ++ after) := by simp only [List.append_assoc]

/-- The ids of a tree, taken apart at the list of children of a node. -/
theorem idPlaces_of_modify?_withItems {tree home : Node} {path : Path}
    (h : tree.get? path = some home) :
    ∃ before after, tree.idPlaces = before ++ idPlacesOfItems home.items ++ after ∧
      ∀ f new, tree.modify? (withItems f) path = some new →
        new.idPlaces = before ++ idPlacesOfItems (f home.items) ++ after := by
  obtain ⟨before, after, htree, hnew⟩ := idPlaces_of_modify? h
  refine ⟨before ++ home.rootPlaces, after, ?_, fun f new hmod => ?_⟩
  · rw [htree, idPlaces_eq home]
    simp only [List.append_assoc]
  · rw [hnew _ new hmod, idPlaces_withItems]
    simp only [List.append_assoc]

theorem idPlaces_eraseItem? {tree node rest : Node} {path : Path}
    (h : tree.eraseItem? path = some rest) (hnode : tree.get? path = some node) :
    tree.idPlaces ~ node.idPlaces ++ rest.idPlaces := by
  obtain ⟨⟨parent, i⟩, hsplit, hmod⟩ := Option.bind_eq_some_iff.1 h
  obtain rfl := Path.split?_eq_some_iff.1 hsplit
  rw [get?_concat] at hnode
  obtain ⟨home, hhome, hchild⟩ := Option.bind_eq_some_iff.1 hnode
  obtain ⟨hi, hitem⟩ := List.getElem?_eq_some_iff.1 (getElem?_of_child? hchild)
  have hitems := idPlacesOfItems_perm (List.getElem_cons_eraseIdx_perm hi).symm
  rw [hitem] at hitems
  obtain ⟨before, after, htree, hnew⟩ := idPlaces_of_modify?_withItems hhome
  rw [htree, hnew _ _ hmod]
  exact perm_inside hitems before after

theorem idPlaces_insertChild? {tree child new : Node} {parent : Path} {i : Nat}
    (h : tree.insertChild? parent i child = some new) :
    new.idPlaces ~ child.idPlaces ++ tree.idPlaces := by
  obtain ⟨home, hhome⟩ := exists_get?_of_modify? h
  obtain ⟨before, after, htree, hnew⟩ := idPlaces_of_modify?_withItems hhome
  rw [htree, hnew _ _ h]
  exact perm_inside (idPlacesOfItems_perm (List.perm_insertIdx (.node child) home.items
    (Nat.min_le_right i home.items.length))) before after

theorem swap_perm (i j : Nat) (items : List ChildItem) : ChildItem.swap i j items ~ items := by
  rw [ChildItem.swap]
  split
  · rename_i a b ha hb
    obtain ⟨hi, rfl⟩ := List.getElem?_eq_some_iff.1 ha
    obtain ⟨hj, rfl⟩ := List.getElem?_eq_some_iff.1 hb
    exact List.set_set_perm hi hj
  · exact .refl items

theorem idPlaces_swapChildren (tree : Node) (parent : Path) (i j : Nat) :
    (tree.swapChildren parent i j).1.idPlaces ~ tree.idPlaces := by
  rw [swapChildren]
  cases hhome : tree.get? parent with
  | none => exact .refl _
  | some home =>
    cases hmod : tree.modify? (withItems (ChildItem.swap i j)) parent with
    | none => simp only [Option.getD_none, List.Perm.refl]
    | some new =>
      simp only [Option.getD_some]
      refine idPlaces_modify?_perm hmod hhome ?_
      rw [idPlaces_withItems, idPlaces_eq home]
      exact (idPlacesOfItems_perm (swap_perm i j home.items)).append_left _

/-- Carrying a node within a tree rearranges the ids. -/
theorem idPlaces_relocate? {tree new : Node} {source parent path : Path} {gap : Nat}
    (h : tree.relocate? source parent gap = some (new, path)) : new.idPlaces ~ tree.idPlaces := by
  obtain ⟨node, rest, place, i, hnode, hrest, hput⟩ := exists_of_relocate? h
  calc new.idPlaces
      ~ node.idPlaces ++ rest.idPlaces := idPlaces_insertChild? hput
    _ ~ tree.idPlaces := (idPlaces_eraseItem? hrest hnode).symm

end Node

end SchemaCanvas
