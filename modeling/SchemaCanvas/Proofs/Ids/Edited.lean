import SchemaCanvas.Proofs.Edit.Outcome
import SchemaCanvas.Proofs.Ids.Fresh
import SchemaCanvas.Proofs.Ids.Places

/-!
# Distinct ids of edited trees

Every operation on a tree keeps its ids distinct: it takes out nodes, rearranges them, or adds a
copy whose ids are new to the tree. There is one theorem for each operation; nothing is asked of the
node on the clipboard.
-/

namespace SchemaCanvas

open scoped List

namespace Node.HasDistinctIds

variable {tree new : Node}

theorem ids_perm {as bs : List (IdRole × String)} (h : as ~ bs) : usedIds as ~ usedIds bs :=
  (h.map Prod.snd).filter _

/-- Rearranging a tree keeps its ids distinct. -/
theorem of_perm (h : tree.HasDistinctIds) (hperm : new.idPlaces ~ tree.idPlaces) :
    new.HasDistinctIds where
  named id hid := h.named id (hperm.mem_iff.1 hid)
  nodup := (ids_perm hperm).nodup_iff.2 h.nodup

/-- What is left of a tree keeps its ids distinct. -/
theorem of_removed (h : tree.HasDistinctIds) {removed : List (IdRole × String)}
    (hperm : tree.idPlaces ~ removed ++ new.idPlaces) : new.HasDistinctIds where
  named id hid := h.named id (hperm.mem_iff.2 (List.mem_append_right removed hid))
  nodup := by
    have hids := ids_perm hperm
    rw [usedIds_append] at hids
    exact (List.nodup_append'.1 (hids.nodup_iff.1 h.nodup)).2.1

/-- A copy whose ids are new keeps the ids of a tree distinct. -/
theorem of_added {copy : Node} (h : tree.HasDistinctIds) (hcopy : copy.HasDistinctIds)
    (hnew : copy.ids.Disjoint tree.ids) (hperm : new.idPlaces ~ copy.idPlaces ++ tree.idPlaces) :
    new.HasDistinctIds where
  named id hid := nodesNamed_append.2 ⟨hcopy.named, h.named⟩ id (hperm.mem_iff.1 hid)
  nodup := by
    have hids := ids_perm hperm
    rw [usedIds_append] at hids
    exact hids.nodup_iff.2 (List.nodup_append'.2 ⟨hcopy.nodup, h.nodup, hnew⟩)

end Node.HasDistinctIds

namespace Edit

variable {next : Nat} {tree : Node} {selection : Option Selection} {e : Edit}

theorem hasDistinctIds_insertChild? {n new : Node} {parent : Path} {i : Nat}
    (htree : tree.HasDistinctIds)
    (h : tree.insertChild? parent i (freshCopy next tree n).1 = some new) :
    new.HasDistinctIds := by
  obtain ⟨hcopy, hnew⟩ := Node.hasDistinctIds_renewIds n { taken := tree.ids, next }
  exact htree.of_added hcopy hnew (Node.idPlaces_insertChild? h)

theorem hasDistinctIds_remove {operation : Operation} {removed : Node}
    (htree : tree.HasDistinctIds) (h : remove next tree selection operation = .ok (e, removed)) :
    e.tree.HasDistinctIds := by
  obtain ⟨path, rest, -, -, hnode, hrest, rfl⟩ := remove_eq_ok_iff.1 h
  exact htree.of_removed (Node.idPlaces_eraseItem? hrest hnode)

theorem hasDistinctIds_delete (htree : tree.HasDistinctIds)
    (h : delete next tree selection = .ok e) : e.tree.HasDistinctIds := by
  obtain ⟨removed, h⟩ := delete_eq_ok_iff.1 h
  exact hasDistinctIds_remove htree h

theorem hasDistinctIds_paste {clipboard : Option Node} (htree : tree.HasDistinctIds)
    (h : paste next tree selection clipboard = .ok e) : e.tree.HasDistinctIds := by
  obtain ⟨copied, path, target, new, -, -, -, -, hnew, rfl⟩ := paste_eq_ok_iff.1 h
  exact hasDistinctIds_insertChild? htree hnew

theorem hasDistinctIds_duplicate (htree : tree.HasDistinctIds)
    (h : duplicate next tree selection = .ok e) : e.tree.HasDistinctIds := by
  obtain ⟨parent, i, node, new, -, -, hnew, rfl⟩ := duplicate_eq_ok_iff.1 h
  exact hasDistinctIds_insertChild? htree hnew

theorem hasDistinctIds_shift {direction : Direction} (htree : tree.HasDistinctIds)
    (h : shift next tree selection direction = .ok e) : e.tree.HasDistinctIds := by
  obtain ⟨parent, own, home, other, -, -, -, -, rfl⟩ := shift_eq_ok_iff.1 h
  exact htree.of_perm (Node.idPlaces_swapChildren tree parent own other)

theorem hasDistinctIds_carry {parent : Path} {gap : Nat} (htree : tree.HasDistinctIds)
    (h : carry next tree selection parent gap = .ok e) : e.tree.HasDistinctIds := by
  obtain ⟨path, target, new, place, -, -, -, -, hnew, rfl⟩ := carry_eq_ok_iff.1 h
  exact htree.of_perm (Node.idPlaces_relocate? hnew)

theorem node?_eq_none_of_isText {item : ChildItem} (h : isText item = true) :
    item.node? = none := by
  cases item with
  | text s => rfl
  | node | ref | other => cases h

theorem idPlacesOfItems_replaceText (text : String) (items : List ChildItem) :
    Node.idPlacesOfItems (replaceText text items) = Node.idPlacesOfItems items := by
  rw [replaceText]
  have hsplit := List.takeWhile_append_dropWhile (p := fun item => !isText item) (l := items)
  cases hdrop : items.dropWhile fun item => !isText item with
  | cons first after =>
    -- the first text is replaced, and those behind it are left out
    have hfirst : isText first = true := by
      have := List.head?_dropWhile_not (fun item => !isText item) items
      simpa [hdrop] using this
    have hafter : Node.idPlacesOfItems (after.filter fun item => !isText item) =
        Node.idPlacesOfItems after :=
      Node.idPlacesOfItems_filter _ fun item _ h => node?_eq_none_of_isText (by simpa using h)
    have hnone := Node.idPlacesOfItem_of_node?_eq_none (node?_eq_none_of_isText hfirst)
    rw [hdrop] at hsplit
    conv_rhs => rw [← hsplit]
    simp only [Node.idPlacesOfItems_append, Node.idPlacesOfItems, Node.idPlacesOfItem, hnone,
      hafter]
  | nil =>
    rw [Node.idPlacesOfItems, Node.idPlacesOfItem_of_node?_eq_none rfl, List.nil_append]
    split_ifs with hnodes
    · rfl
    · -- without a node in the list there are no ids in it
      have hnone : ∀ item ∈ items, item.node? = none := by simpa using hnodes
      have hkept := Node.idPlacesOfItems_filter (fun _ => false) fun item h _ => hnone item h
      rw [← hkept, List.filter_false]

theorem idPlaces_applyTo (edit : PendingEdit) (n : Node) :
    (n.withElement (applyTo edit)).idPlaces = n.idPlaces := by
  have htext (text : String) :
      (n.withItems (replaceText text)).idPlaces = n.idPlaces := by
    rw [Node.idPlaces_withItems, idPlacesOfItems_replaceText, ← Node.idPlaces_eq]
  obtain ⟨id, text, className⟩ := edit
  cases text with
  | none =>
    cases className with
    | none =>
      cases n
      rfl
    | some name => exact Node.idPlaces_withProp _ _ n
  | some text =>
    cases className with
    | none => exact htext text
    | some name =>
      have hprop := Node.idPlaces_withProp "className" (.literal (.str name))
        (n.withItems (replaceText text))
      exact hprop.trans (htext text)

theorem hasDistinctIds_content {edit : PendingEdit} (htree : tree.HasDistinctIds)
    (h : content next tree edit = .ok e) : e.tree.HasDistinctIds := by
  obtain ⟨path, new, -, hpath, hnew, rfl⟩ := content_eq_ok_iff.1 h
  obtain ⟨node, hnode⟩ := Node.exists_get?_of_modify? hnew
  exact htree.of_perm (Node.idPlaces_modify?_perm hnew hnode (.of_eq (idPlaces_applyTo edit node)))

end Edit

end SchemaCanvas
