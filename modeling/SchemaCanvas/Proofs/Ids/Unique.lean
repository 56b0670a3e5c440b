import SchemaCanvas.Proofs.Ids.Fresh
import SchemaCanvas.Proofs.Ids.Places
import SchemaCanvas.Proofs.Schema.Subtree
import SchemaCanvas.Selection.State

/-!
# Nodes told apart by their ids

Where every node has an id and no id occurs twice, an id belongs to one place of the tree. A place
is given here by the steps that lead to it, through lists of children and `else` branches alike; the
ids below two different steps from one node have nothing in common.

* `Node.HasDistinctIds.eq_of_reach?` : nodes with the same id lie at the same place;
* `Node.HasDistinctIds.pathOf?_eq_some_iff` : the search for an id finds the node that has it;
* `Node.HasDistinctIds.get?_of_within` : what is found is no other node with that id, such as one in
  an `else` branch;
* `Node.HasDistinctIds.locate?_eq_some_iff` : a selected node is the one with the id.
-/

namespace SchemaCanvas

theorem usedIds_sublist {as bs : List (IdRole × String)} (h : as.Sublist bs) :
    (usedIds as).Sublist (usedIds bs) := (h.map Prod.snd).filter _

theorem usedIds_flatMap (items : List ChildItem) :
    usedIds (items.flatMap Node.idPlacesOfItem) =
      items.flatMap fun item => usedIds (Node.idPlacesOfItem item) := by
  induction items with
  | nil => rfl
  | cons item items ih => rw [List.flatMap_cons, usedIds_append, ih, List.flatMap_cons]

namespace Node

/-! ### Steps down a tree -/

/-- A step from a node to one below it. -/
inductive Step where
  | branch
  | child (i : Nat)

/-- The node one step down. -/
def below? (n : Node) : Step → Option Node
  | .branch =>
    match n.element.otherwise with
    | some (.node b) => some b
    | _ => none
  | .child i => n.child? i

/-- The node to which steps lead. -/
def reach? (n : Node) : List Step → Option Node
  | [] => some n
  | step :: rest => (n.below? step).bind fun c => c.reach? rest

variable {n c d a b : Node} {x y : Step}

theorem reach?_map_child (n : Node) (path : Path) : n.reach? (path.map .child) = n.get? path := by
  induction path generalizing n with
  | nil => rfl
  | cons i path ih =>
    rw [List.map_cons, reach?, get?]
    exact congrArg _ (funext fun c => ih c)

theorem exists_reach?_of_within (h : a.Within n) : ∃ steps, n.reach? steps = some a := by
  induction h with
  | self => exact ⟨[], rfl⟩
  | child hc _ ih =>
    obtain ⟨i, hi⟩ := mem_items_iff.1 hc
    obtain ⟨steps, hsteps⟩ := ih
    refine ⟨.child i :: steps, ?_⟩
    rw [reach?, below?, hi, Option.bind_some, hsteps]
  | branch hb _ ih =>
    obtain ⟨steps, hsteps⟩ := ih
    refine ⟨.branch :: steps, ?_⟩
    rw [reach?, below?, hb]
    exact hsteps

/-! ### Ids below a step -/

theorem rootPlaces_eq (n : Node) : ∃ inner, n.rootPlaces =
    (.node, n.id) :: (inner ++ ((n.below? .branch).map idPlaces).getD []) := by
  obtain ⟨component, element⟩ := n
  cases component with
  | none =>
    refine ⟨[], ?_⟩
    rcases hotherwise : element.otherwise with _ | _ | _ <;>
      simp [rootPlaces, below?, Node.id, idPlacesOfBranch, hotherwise]
  | some component =>
    refine ⟨[(.render, element.id)], ?_⟩
    rcases hotherwise : element.otherwise with _ | _ | _ <;>
      simp [rootPlaces, below?, Node.id, idPlacesOfBranch, hotherwise]

theorem idPlaces_sublist_flatMap {items : List ChildItem} {i : Nat}
    (h : items[i]? = some (.node c)) : c.idPlaces.Sublist (items.flatMap idPlacesOfItem) := by
  have hmem : idPlacesOfItem (.node c) ∈ items.map idPlacesOfItem :=
    List.mem_map_of_mem (List.mem_of_getElem? h)
  rw [List.flatMap_def]
  exact List.sublist_flatten_of_mem hmem

theorem cons_idPlaces_sublist (h : n.below? x = some c) :
    ((.node, n.id) :: c.idPlaces).Sublist n.idPlaces := by
  obtain ⟨inner, hroot⟩ := n.rootPlaces_eq
  rw [idPlaces_eq n, hroot, idPlacesOfItems_eq_flatMap, List.cons_append]
  refine List.Sublist.cons_cons _ ?_
  cases x with
  | branch =>
    rw [h]
    exact (List.sublist_append_right ..).trans (List.sublist_append_left ..)
  | child i =>
    exact (idPlaces_sublist_flatMap (getElem?_of_child? h)).trans (List.sublist_append_right ..)

namespace HasDistinctIds

theorem below (hn : n.HasDistinctIds) (h : n.below? x = some c) : c.HasDistinctIds where
  named id hid := hn.named id ((cons_idPlaces_sublist h).subset (List.mem_cons_of_mem _ hid))
  nodup := by
    have hsublist := usedIds_sublist ((List.sublist_cons_self _ _).trans (cons_idPlaces_sublist h))
    exact hn.nodup.sublist hsublist

theorem id_ne_empty (hn : n.HasDistinctIds) : n.id ≠ "" := by
  obtain ⟨inner, hroot⟩ := n.rootPlaces_eq
  refine hn.named _ ?_
  rw [idPlaces_eq, hroot]
  exact List.mem_cons_self

theorem id_notMem (hn : n.HasDistinctIds) (h : n.below? x = some c) : n.id ∉ c.ids := by
  have hsublist := usedIds_sublist (cons_idPlaces_sublist h)
  rw [usedIds_cons_of_ne hn.id_ne_empty] at hsublist
  exact (List.nodup_cons.1 (hn.nodup.sublist hsublist)).1

theorem id_mem (hn : n.HasDistinctIds) : n.id ∈ n.ids := by
  obtain ⟨inner, hroot⟩ := n.rootPlaces_eq
  show n.id ∈ usedIds n.idPlaces
  rw [idPlaces_eq, hroot, List.cons_append, usedIds_cons_of_ne hn.id_ne_empty]
  exact List.mem_cons_self

theorem id_mem_of_reach? {steps : List Step} (hn : n.HasDistinctIds)
    (h : n.reach? steps = some a) : a.id ∈ n.ids := by
  induction steps generalizing n with
  | nil =>
    obtain rfl := Option.some.inj h
    exact hn.id_mem
  | cons x steps ih =>
    obtain ⟨c, hc, hrest⟩ := Option.bind_eq_some_iff.1 h
    have hsublist := (List.sublist_cons_self _ _).trans (cons_idPlaces_sublist hc)
    exact (usedIds_sublist hsublist).subset (ih (hn.below hc) hrest)

theorem disjoint_branch {i : Nat} (hn : n.HasDistinctIds) (hb : n.below? .branch = some b)
    (hc : n.child? i = some c) : b.ids.Disjoint c.ids := by
  obtain ⟨inner, hroot⟩ := n.rootPlaces_eq
  have hnodup : (usedIds n.idPlaces).Nodup := hn.nodup
  rw [idPlaces_eq, hroot, hb, idPlacesOfItems_eq_flatMap, usedIds_append] at hnodup
  have hchild := usedIds_sublist (idPlaces_sublist_flatMap (getElem?_of_child? hc))
  refine fun id hid hid' => (List.nodup_append'.1 hnodup).2.2 ?_ (hchild.subset hid')
  exact usedIds_subset_cons _ _ (by rw [usedIds_append]; exact List.mem_append_right _ hid)

theorem disjoint_children {i j : Nat} (hn : n.HasDistinctIds) (hc : n.child? i = some c)
    (hd : n.child? j = some d) (hlt : i < j) : c.ids.Disjoint d.ids := by
  have hnodup : (usedIds n.idPlaces).Nodup := hn.nodup
  rw [idPlaces_eq, idPlacesOfItems_eq_flatMap, usedIds_append, usedIds_flatMap] at hnodup
  have hpairwise := (List.nodup_flatMap.1 (List.nodup_append'.1 hnodup).2.1).2
  obtain ⟨hi, hic⟩ := List.getElem?_eq_some_iff.1 (getElem?_of_child? hc)
  obtain ⟨hj, hjd⟩ := List.getElem?_eq_some_iff.1 (getElem?_of_child? hd)
  have hdisjoint := List.pairwise_iff_getElem.1 hpairwise i j hi hj hlt
  rw [hic, hjd] at hdisjoint
  exact hdisjoint

/-- **The ids below two different steps have nothing in common.** -/
theorem disjoint_below (hn : n.HasDistinctIds) (hc : n.below? x = some c)
    (hd : n.below? y = some d) (hne : x ≠ y) : c.ids.Disjoint d.ids := by
  cases x with
  | branch =>
    cases y with
    | branch => exact absurd rfl hne
    | child j => exact hn.disjoint_branch hc hd
  | child i =>
    cases y with
    | branch => exact List.disjoint_symm (hn.disjoint_branch hd hc)
    | child j =>
      rcases Nat.lt_trichotomy i j with hlt | rfl | hlt
      · exact hn.disjoint_children hc hd hlt
      · exact absurd rfl hne
      · exact List.disjoint_symm (hn.disjoint_children hd hc hlt)

/-! ### One place for an id -/

/-- **Nodes with the same id lie at the same place.** -/
theorem eq_of_reach? {s t : List Step} (hn : n.HasDistinctIds) (ha : n.reach? s = some a)
    (hb : n.reach? t = some b) (hid : a.id = b.id) : s = t := by
  induction s generalizing n t with
  | nil =>
    cases t with
    | nil => rfl
    | cons y t =>
      obtain rfl := Option.some.inj ha
      obtain ⟨d, hd, hrest⟩ := Option.bind_eq_some_iff.1 hb
      exact absurd (hid ▸ id_mem_of_reach? (hn.below hd) hrest) (hn.id_notMem hd)
  | cons x s ih =>
    obtain ⟨c, hc, hrest⟩ := Option.bind_eq_some_iff.1 ha
    have hmem := id_mem_of_reach? (hn.below hc) hrest
    cases t with
    | nil =>
      obtain rfl := Option.some.inj hb
      exact absurd (hid ▸ hmem) (hn.id_notMem hc)
    | cons y t =>
      obtain ⟨d, hd, hrest'⟩ := Option.bind_eq_some_iff.1 hb
      by_cases hxy : x = y
      · subst hxy
        obtain rfl := Option.some.inj (hc.symm.trans hd)
        rw [ih (hn.below hc) hrest hrest']
      · have hmem' := id_mem_of_reach? (hn.below hd) hrest'
        exact absurd hmem' (hid ▸ hn.disjoint_below hc hd hxy hmem)

variable {path : Path} {id : String}

theorem get?_of_within (hn : n.HasDistinctIds) (ha : a.Within n) (hb : n.get? path = some b)
    (hid : a.id = b.id) : n.get? path = some a := by
  obtain ⟨steps, hsteps⟩ := exists_reach?_of_within ha
  have hplace : steps = path.map .child :=
    hn.eq_of_reach? hsteps (by rw [reach?_map_child, hb]) hid
  rw [← reach?_map_child, ← hplace, hsteps]

theorem eq_of_get? {path' : Path} (hn : n.HasDistinctIds) (ha : n.get? path = some a)
    (hb : n.get? path' = some b) (hid : a.id = b.id) : path = path' := by
  rw [← reach?_map_child] at ha hb
  exact List.map_injective_iff.2 (fun i j h => Step.child.inj h) (hn.eq_of_reach? ha hb hid)

/-- **The search for an id finds the node that has it.** -/
theorem pathOf?_eq_some_iff (hn : n.HasDistinctIds) :
    n.pathOf? id = some path ↔ ∃ a, n.get? path = some a ∧ a.id = id := by
  constructor
  · exact exists_get?_of_pathOf?
  · rintro ⟨a, ha, rfl⟩
    obtain ⟨found, hfound⟩ := exists_pathOf?_iff.2 ⟨path, a, ha, rfl⟩
    obtain ⟨b, hb, hid⟩ := exists_get?_of_pathOf? hfound
    rw [hfound, hn.eq_of_get? hb ha hid]

end HasDistinctIds

end Node

/-! ### Selected nodes -/

/-- The path of a selection does not matter for where its node is found: an id that is not found is
not found there either. -/
theorem Selection.locate?_eq_pathOf? (sel : Selection) (tree : Node) :
    sel.locate? tree = tree.pathOf? sel.id := by
  rw [locate?]
  cases hfound : tree.pathOf? sel.id with
  | some path => rfl
  | none =>
    refine if_neg fun hat => ?_
    obtain ⟨n, hn, hid⟩ := Option.map_eq_some_iff.1 hat
    obtain ⟨path, hpath⟩ := Node.exists_pathOf?_iff.2 ⟨sel.path, n, hn, hid⟩
    rw [hfound] at hpath
    cases hpath

/-- **A selected node is the one that has the id.** -/
theorem Node.HasDistinctIds.locate?_eq_some_iff {tree : Node} {sel : Selection} {path : Path}
    (htree : tree.HasDistinctIds) :
    sel.locate? tree = some path ↔ ∃ a, tree.get? path = some a ∧ a.id = sel.id := by
  rw [sel.locate?_eq_pathOf?, htree.pathOf?_eq_some_iff]

end SchemaCanvas
