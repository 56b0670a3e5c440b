import SchemaCanvas.Proofs.Edit.Outcome
import SchemaCanvas.Proofs.Edit.Relocation
import SchemaCanvas.Proofs.Ids.Unique
import SchemaCanvas.Proofs.Ids.Unnamed

/-!
# Duplicating and deleting

A copy of a node is put behind it, and deleting the copy gives the tree back. Deleting looks for the
copy by its id, the first one in the order parent before children, so this rests on the id being new
to the whole tree. Nothing is asked of the ids of the tree itself, which may be missing or repeated.

* `Node.modify?_self` : a change that changes nothing at a path changes nothing;
* `Node.eraseItem?_of_insertChild?_beside` : what is put in behind a node leaves no trace when it is
  taken out;
* `Node.pathOf?_of_eraseItem?` : a node with new ids is found by its id;
* `Edit.delete_duplicate` : what duplicating changes, and that deleting the copy undoes it.
-/

namespace SchemaCanvas

namespace Node

variable {tree new n m c copy : Node} {f : Node → Node} {path home parent : Path} {i own : Nat}

/-! ### Changes that change nothing -/

theorem withItems_self {f : List ChildItem → List ChildItem} (h : f n.items = n.items)
    (hne : n.items ≠ []) : n.withItems f = n := by
  obtain ⟨component, id, type, props, children, condition, elseIf, otherwise, loop, key, link,
    platform⟩ := n
  cases children with
  | none => exact absurd rfl hne
  | some items =>
    change f items = items at h
    simp only [withItems, withElement, Element.withItems, Element.items, Option.getD_some, h]

theorem setItem_self (h : n.child? i = some c) : n.setItem i (.node c) = n := by
  obtain ⟨hi, hitem⟩ := List.getElem?_eq_some_iff.1 (getElem?_of_child? h)
  refine withItems_self ?_ (List.ne_nil_of_length_pos (Nat.zero_lt_of_lt hi))
  rw [← hitem, List.set_getElem_self]

theorem modify?_self (hm : tree.get? path = some m) (h : f m = m) :
    tree.modify? f path = some tree := by
  induction path generalizing tree with
  | nil =>
    obtain rfl := Option.some.inj hm
    rw [modify?, h]
  | cons i path ih =>
    obtain ⟨c, hc, hbelow⟩ := Option.bind_eq_some_iff.1 hm
    rw [modify?, hc, Option.bind_some, ih hbelow, Option.map_some, setItem_self hc]

/-- **What is put in behind a node leaves no trace.** There was a list already, with the node in
it. -/
theorem eraseItem?_of_insertChild?_beside
    (hnew : tree.insertChild? parent (i + 1) copy = some new) (hhome : tree.get? parent = some n)
    (hchild : n.child? i = some c) : new.eraseItem? (parent ++ [i + 1]) = some tree := by
  have hi : i < n.items.length := lt_length_of_child? hchild
  have hlisted : n.listed = n :=
    withItems_self rfl (List.ne_nil_of_length_pos (Nat.zero_lt_of_lt hi))
  rw [eraseItem?_of_insertChild? hnew hhome hi, modify?_self hhome hlisted]

/-! ### A node with new ids -/

theorem id_mem_ids (h : n.id ≠ "") : n.id ∈ n.ids := by
  obtain ⟨inner, hroot⟩ := n.rootPlaces_eq
  show n.id ∈ usedIds n.idPlaces
  rw [idPlaces_eq, hroot, List.cons_append, usedIds_cons_of_ne h]
  exact List.mem_cons_self

theorem id_mem_ids_of_get? (h : tree.get? path = some m) (hid : m.id ≠ "") : m.id ∈ tree.ids := by
  obtain ⟨before, after, htree, -⟩ := idPlaces_of_modify? h
  show m.id ∈ usedIds tree.idPlaces
  rw [htree, usedIds_append, usedIds_append]
  exact List.mem_append_left _ (List.mem_append_right _ (id_mem_ids hid))

/-- **A node with new ids is found by its id,** whatever the ids of the rest of the tree are. -/
theorem pathOf?_of_eraseItem? (hrest : new.eraseItem? (home ++ [own]) = some tree)
    (hcopy : new.get? (home ++ [own]) = some copy) (hids : copy.HasDistinctIds)
    (hnew : copy.ids.Disjoint tree.ids) : new.pathOf? copy.id = some (home ++ [own]) := by
  obtain ⟨path, hpath⟩ := exists_pathOf?_iff.2 ⟨_, copy, hcopy, rfl⟩
  obtain ⟨m, hm, hid⟩ := exists_get?_of_pathOf? hpath
  rw [hpath]
  by_cases hin : home ++ [own] <+: path
  · -- below the copy, where its id occurs once
    obtain ⟨below, rfl⟩ := hin
    rw [get?_append, hcopy, Option.bind_some] at hm
    have hroot : copy.get? [] = some copy := rfl
    rw [hids.eq_of_get? hm hroot hid, List.append_nil]
  · -- elsewhere, where its id does not occur
    obtain ⟨left, hleft, hleftId, -⟩ := exists_of_eraseItem? hrest hcopy hm hin
    have hleftId := hleftId.trans hid
    have hmem := id_mem_ids_of_get? hleft (hleftId ▸ hids.id_ne_empty)
    exact absurd (hleftId ▸ hmem) (hnew hids.id_mem)

end Node

namespace Edit

variable {tree new home node : Node} {sel : Selection} {parent : Path} {i : Nat}

theorem locate?_of_pathOf? {path : Path} (h : tree.pathOf? sel.id = some path) :
    ((some sel).bind fun sel => sel.locate? tree) = some path := by
  rw [Option.bind_some, sel.locate?_eq_pathOf?, h]

theorem exists_duplicate (next : Nat) (h : tree.pathOf? sel.id = some (parent ++ [i]))
    (hhome : tree.get? parent = some home) (hchild : home.child? i = some node) :
    ∃ new, tree.insertChild? parent (i + 1) (freshCopy next tree node).1 = some new ∧
      duplicate next tree (some sel) = .ok ⟨new,
        some ⟨(freshCopy next tree node).1.id, parent ++ [i + 1]⟩, .duplicate,
        (freshCopy next tree node).2⟩ := by
  obtain ⟨new, hnew⟩ := Node.exists_insertChild? (freshCopy next tree node).1 (i + 1) hhome
  have hnode : tree.get? (parent ++ [i]) = some node := by
    rw [Node.get?_concat, hhome, Option.bind_some, hchild]
  exact ⟨new, hnew, duplicate_eq_ok_iff.2
    ⟨parent, i, node, new, locate?_of_pathOf? h, hnode, hnew, rfl⟩⟩

theorem delete_copy (next next' : Nat) (hhome : tree.get? parent = some home)
    (hchild : home.child? i = some node)
    (hnew : tree.insertChild? parent (i + 1) (freshCopy next tree node).1 = some new) :
    delete next' new (some ⟨(freshCopy next tree node).1.id, parent ++ [i + 1]⟩) =
      .ok ⟨tree, none, .delete, next'⟩ := by
  have hback := Node.eraseItem?_of_insertChild?_beside hnew hhome hchild
  have hcopy := Node.get?_of_insertChild? hnew hhome (Node.lt_length_of_child? hchild)
  obtain ⟨hids, hdisjoint⟩ := Node.hasDistinctIds_renewIds node { taken := tree.ids, next }
  have hfound : new.pathOf? (freshCopy next tree node).1.id = some (parent ++ [i + 1]) :=
    Node.pathOf?_of_eraseItem? hback hcopy hids hdisjoint
  exact delete_eq_ok_iff.2 ⟨_, remove_eq_ok_iff.2
    ⟨parent ++ [i + 1], tree, locate?_of_pathOf? hfound, by simp, hcopy, hback, rfl⟩⟩

/-- **Duplicating is local, and deleting the copy undoes it.** A node that is found below the root
by the id of the selection can be duplicated. In the list in which it stands there is one entry more
then, behind it, which differs from it in ids alone; the rest of the tree is as it was. Deleting
what is selected then gives the tree back. -/
theorem delete_duplicate (next next' : Nat) (tree : Node) (sel : Selection) (parent : Path)
    (i : Nat) (h : tree.pathOf? sel.id = some (parent ++ [i])) :
    ∃ home node copy duplicated undone, tree.get? parent = some home ∧ home.child? i = some node ∧
      copy.withoutIds = node.withoutIds ∧
      duplicate next tree (some sel) = .ok duplicated ∧
      duplicated.tree.get? parent =
        some (home.withItems fun items => items.insertIdx (i + 1) (.node copy)) ∧
      (∀ other, duplicated.tree.modify? (fun _ => other) parent =
        tree.modify? (fun _ => other) parent) ∧
      duplicated.selection = some ⟨copy.id, parent ++ [i + 1]⟩ ∧
      delete next' duplicated.tree duplicated.selection = .ok undone ∧ undone.tree = tree := by
  obtain ⟨node, hnode, -⟩ := Node.exists_get?_of_pathOf? h
  obtain ⟨home, hhome, hchild⟩ := Option.bind_eq_some_iff.1 (Node.get?_concat tree parent i ▸ hnode)
  obtain ⟨new, hnew, hduplicate⟩ := exists_duplicate next h hhome hchild
  have hmodify : tree.modify? (Node.putChild (i + 1) (freshCopy next tree node).1) parent =
      some new := by
    rw [← hnew, Node.insertChild?_eq hhome, Nat.min_eq_left (Node.lt_length_of_child? hchild)]
  refine ⟨home, node, (freshCopy next tree node).1, _, _, hhome, hchild,
    withoutIds_freshCopy next tree node, hduplicate, ?_, fun other => ?_, rfl,
    delete_copy next next' hhome hchild hnew, rfl⟩
  · rw [Node.get?_of_modify? hmodify, hhome, Option.map_some]
    rfl
  · have htwice := Node.modify?_append (g := fun _ => other) (k := fun _ => other) (q := [])
      hmodify hhome rfl
    rwa [List.append_nil] at htwice

/-- A card with two rows of one id. The second one is a card itself. -/
def rowsCard : Node where
  component := some { id := "card" }
  element := {
    id := "rows", type := "ul"
    children := some [.text "x", .node { element := { id := "row", type := "li" } },
      .node {
        component := some { id := "card" }, element := { id := "row", type := "li" } }] }

/-- A page with the card. -/
def cardPage : Node where
  element := { id := "root", type := "div", children := some [.node rowsCard] }

/-- The first of the rows is the one that is found, also from a selection with another path. -/
theorem delete_duplicate_cardPage : cardPage.pathOf? "row" = some [0, 1] ∧
    ∃ home node copy duplicated undone, cardPage.get? [0] = some home ∧ home.child? 1 = some node ∧
      copy.withoutIds = node.withoutIds ∧
      duplicate 0 cardPage (some ⟨"row", [0, 2]⟩) = .ok duplicated ∧
      duplicated.tree.get? [0] =
        some (home.withItems fun items => items.insertIdx 2 (.node copy)) ∧
      (∀ other, duplicated.tree.modify? (fun _ => other) [0] =
        cardPage.modify? (fun _ => other) [0]) ∧
      duplicated.selection = some ⟨copy.id, [0, 2]⟩ ∧
      delete 0 duplicated.tree duplicated.selection = .ok undone ∧ undone.tree = cardPage :=
  have hfound : cardPage.pathOf? "row" = some [0, 1] := by rfl
  ⟨hfound, delete_duplicate 0 0 cardPage ⟨"row", [0, 2]⟩ [0] 1 hfound⟩

end Edit

end SchemaCanvas
