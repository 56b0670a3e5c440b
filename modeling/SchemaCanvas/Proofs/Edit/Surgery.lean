import SchemaCanvas.Edit.Rearrange
import Mathlib.Data.List.Basic
import Mathlib.Tactic.SplitIfs

/-!
# Trees taken apart at a path

What is needed to look into an edited tree: a path in two parts, the entry behind a child, the
positions of the children, and the steps that `Node.relocate?` is made of.
-/

namespace SchemaCanvas

namespace Path

/-- A path splits into the path one level up and its last step. -/
theorem split?_eq_some_iff {path parent : Path} {i : Nat} :
    path.split? = some (parent, i) ↔ path = parent ++ [i] := by
  constructor
  · intro h
    obtain ⟨j, hj, heq⟩ := Option.map_eq_some_iff.1 h
    obtain ⟨rfl, rfl⟩ := Prod.mk.inj heq
    exact (List.dropLast_append_getLast? _ hj).symm
  · rintro rfl
    simp [split?]

end Path

namespace Node

@[simp]
theorem items_withItems (f : List ChildItem → List ChildItem) (n : Node) :
    (n.withItems f).items = f n.items := rfl

theorem getElem?_of_child? {n c : Node} {i : Nat} (h : n.child? i = some c) :
    n.items[i]? = some (.node c) := by
  obtain ⟨item, hitem, hnode⟩ := Option.bind_eq_some_iff.1 h
  cases item with
  | node d => rw [hitem, Option.some.inj (show some d = some c from hnode)]
  | text | ref | other => cases hnode

theorem lt_length_of_child? {n c : Node} {i : Nat} (h : n.child? i = some c) : i < n.items.length :=
  (List.getElem?_eq_some_iff.1 (getElem?_of_child? h)).1

theorem mem_childPositions_iff {n : Node} {i : Nat} :
    i ∈ n.childPositions ↔ (n.child? i).isSome := by
  rw [childPositions, List.mem_filter, List.mem_range, and_iff_right_iff_imp]
  intro h
  obtain ⟨c, hc⟩ := Option.isSome_iff_exists.1 h
  exact lt_length_of_child? hc

theorem pairwise_childPositions (n : Node) : n.childPositions.Pairwise (· < ·) :=
  List.pairwise_lt_range.filter _

theorem get?_concat (n : Node) (parent : Path) (i : Nat) :
    n.get? (parent ++ [i]) = (n.get? parent).bind fun m => m.child? i := by
  rw [get?_append]
  congr
  funext m
  rw [get?]
  cases m.child? i <;> rfl

theorem exists_get?_of_modify? {tree new : Node} {f : Node → Node} {path : Path}
    (h : tree.modify? f path = some new) : ∃ node, tree.get? path = some node := by
  rw [← Option.isSome_iff_exists, ← isSome_modify? f, h]
  rfl

theorem exists_modify? {tree node : Node} {path : Path} (f : Node → Node)
    (h : tree.get? path = some node) : ∃ new, tree.modify? f path = some new := by
  rw [← Option.isSome_iff_exists, isSome_modify?, h]
  rfl

/-- What carrying a node does: it is taken out of the tree and put in again. -/
theorem exists_of_relocate? {tree new : Node} {source parent path : Path} {gap : Nat}
    (h : tree.relocate? source parent gap = some (new, path)) :
    ∃ node rest place i, tree.get? source = some node ∧ tree.eraseItem? source = some rest ∧
      rest.insertChild? place i node = some new := by
  rw [relocate?] at h
  obtain ⟨⟨home, own⟩, -, h⟩ := Option.bind_eq_some_iff.1 h
  split_ifs at h
  obtain ⟨target, -, h⟩ := Option.bind_eq_some_iff.1 h
  obtain ⟨node, hnode, h⟩ := Option.bind_eq_some_iff.1 h
  obtain ⟨rest, hrest, h⟩ := Option.bind_eq_some_iff.1 h
  obtain ⟨put, hput, h⟩ := Option.bind_eq_some_iff.1 h
  obtain ⟨rfl, -⟩ := Prod.mk.inj (Option.some.inj h)
  exact ⟨node, rest, _, _, hnode, hrest, hput⟩

end Node

end SchemaCanvas
