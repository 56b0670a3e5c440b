import SchemaCanvas.Proofs.Ids.Fresh

/-!
# Ids that are kept

A tree in which every node has an id and no id occurs twice needs no repair: nothing is drawn, and
the tree stays as it is.

* `Node.mapIds_eq_self` : a traversal that leaves all ids leaves the tree;
* `Node.ensureIds_eq_self` : a repair leaves a tree with distinct ids.
-/

namespace SchemaCanvas

section

variable {σ : Type} {f : IdRole → String → String → StateM σ String}

theorem Redraw.length_eq {s t : σ} {olds news : List (IdRole × String)}
    (h : Redraw f s olds t news) : news.length = olds.length := by
  induction h with
  | nil => rfl
  | cons type _ ih => rw [List.length_cons, List.length_cons, ih]

namespace Node

mutual

/-- **A traversal that leaves all ids leaves the tree.** -/
theorem mapIds_eq_self : ∀ (n : Node) (s : σ), (n.mapIds f s).1.idPlaces = n.idPlaces →
    (n.mapIds f s).1 = n
  | ⟨none, element⟩, s, h => by
    obtain ⟨hid, hbelow⟩ := List.cons.inj h
    have hid : (f .node element.type element.id s).1 = element.id := (Prod.mk.inj hid).2
    rw [idPlacesBelow_withId] at hbelow
    have helement := mapIdsBelow_eq_self element (f .node element.type element.id s).2 hbelow
    change Node.mk none { (mapIdsBelow f element _).1 with id := (f _ _ _ s).1 } = _
    rw [helement, hid]
    cases element
    rfl
  | ⟨some component, element⟩, s, h => by
    let after := f .node element.type component.id s
    obtain ⟨hid, h⟩ := List.cons.inj h
    obtain ⟨hinner, hbelow⟩ := List.cons.inj h
    have hid : after.1 = component.id := (Prod.mk.inj hid).2
    let inner := f .render element.type element.id after.2
    have hinner : inner.1 = element.id := (Prod.mk.inj hinner).2
    rw [idPlacesBelow_withId] at hbelow
    have helement := mapIdsBelow_eq_self element inner.2 hbelow
    change Node.mk (some { component with id := after.1 })
      { (mapIdsBelow f element inner.2).1 with id := inner.1 } = _
    rw [helement, hid, hinner]
    cases element
    rfl

theorem mapIdsBelow_eq_self : ∀ (e : Element) (s : σ),
    idPlacesBelow (mapIdsBelow f e s).1 = idPlacesBelow e → (mapIdsBelow f e s).1 = e
  | ⟨_, _, _, none, _, _, none, _, _, _, _⟩, s, _ => rfl
  | ⟨_, _, _, some items, _, _, none, _, _, _, _⟩, s, h => by
    have hitems : (mapIdsOfItems f items s).1 = items := mapIdsOfItems_eq_self items s h
    change Element.mk _ _ _ (some (mapIdsOfItems f items s).1) _ _ none _ _ _ _ = _
    rw [hitems]
  | ⟨_, _, _, none, _, _, some branch, _, _, _, _⟩, s, h => by
    have hbranch : (mapIdsOfBranch f branch s).1 = branch :=
      mapIdsOfBranch_eq_self branch s (List.append_inj_left' h rfl)
    change Element.mk _ _ _ none _ _ (some (mapIdsOfBranch f branch s).1) _ _ _ _ = _
    rw [hbranch]
  | ⟨_, _, _, some items, _, _, some branch, _, _, _, _⟩, s, h => by
    have hlength := (redraw_mapIdsOfBranch (f := f) branch s).length_eq
    obtain ⟨hbranch, hitems⟩ := List.append_inj h hlength
    have hbranch := mapIdsOfBranch_eq_self branch s hbranch
    have hitems := mapIdsOfItems_eq_self items _ hitems
    change Element.mk _ _ _ (some (mapIdsOfItems f items _).1) _ _
      (some (mapIdsOfBranch f branch s).1) _ _ _ _ = _
    rw [hbranch, hitems]

theorem mapIdsOfBranch_eq_self : ∀ (b : ElseBranch) (s : σ),
    idPlacesOfBranch (mapIdsOfBranch f b s).1 = idPlacesOfBranch b → (mapIdsOfBranch f b s).1 = b
  | .node n, s, h => congrArg ElseBranch.node (mapIds_eq_self n s h)
  | .flag _, _, _ => rfl

theorem mapIdsOfItems_eq_self : ∀ (items : List ChildItem) (s : σ),
    idPlacesOfItems (mapIdsOfItems f items s).1 = idPlacesOfItems items →
      (mapIdsOfItems f items s).1 = items
  | [], _, _ => rfl
  | item :: rest, s, h => by
    have hlength := (redraw_mapIdsOfItem (f := f) item s).length_eq
    obtain ⟨hitem, hrest⟩ := List.append_inj h hlength
    have hitem := mapIdsOfItem_eq_self item s hitem
    have hrest := mapIdsOfItems_eq_self rest _ hrest
    change (mapIdsOfItem f item s).1 :: (mapIdsOfItems f rest _).1 = _
    rw [hitem, hrest]

theorem mapIdsOfItem_eq_self : ∀ (item : ChildItem) (s : σ),
    idPlacesOfItem (mapIdsOfItem f item s).1 = idPlacesOfItem item →
      (mapIdsOfItem f item s).1 = item
  | .node n, s, h => congrArg ChildItem.node (mapIds_eq_self n s h)
  | .text _, _, _ => rfl
  | .ref _, _, _ => rfl
  | .other _, _, _ => rfl

end

end Node

end

theorem Redraw.eq_of_distinct {r r' : IdRepair} {olds news : List (IdRole × String)}
    (h : Redraw IdRepair.repair r olds r' news) (hnamed : NodesNamed olds)
    (hnodup : (usedIds olds).Nodup) (hnew : (usedIds olds).Disjoint r.seen) :
    news = olds ∧ r'.pool = r.pool := by
  induction h with
  | nil => exact ⟨rfl, rfl⟩
  | @cons role type id r r' olds news h ih =>
    obtain ⟨hid, holds⟩ := nodesNamed_cons.1 hnamed
    obtain ⟨rfl, rfl, heq⟩ | ⟨hne, -, heq⟩ | ⟨hreplaced, heq⟩ :=
      IdRepair.repair_cases role type id r
    · -- an inner element without an id
      rw [heq] at ih ⊢
      rw [usedIds_cons_empty] at hnodup hnew
      obtain ⟨rfl, hpool⟩ := ih holds hnodup hnew
      exact ⟨rfl, hpool⟩
    · -- an id that is met for the first time
      rw [heq] at ih ⊢
      rw [usedIds_cons_of_ne hne] at hnodup hnew
      obtain ⟨hfirst, hnodup⟩ := List.nodup_cons.1 hnodup
      obtain ⟨-, hnew⟩ := List.disjoint_cons_left.1 hnew
      obtain ⟨rfl, hpool⟩ := ih holds hnodup (List.disjoint_cons_right.2 ⟨hfirst, hnew⟩)
      exact ⟨rfl, hpool⟩
    · exfalso
      by_cases hempty : id = ""
      · subst hempty
        cases role with
        | node => exact hid rfl rfl
        | render => exact IdPool.fst_fresh_ne_empty type r.pool (congrArg Prod.fst heq).symm
      · rw [usedIds_cons_of_ne hempty] at hnew
        obtain ⟨hunseen, -⟩ := List.disjoint_cons_left.1 hnew
        exact hunseen (hreplaced.resolve_left fun h => hempty h.2)

namespace Node

/-- **A repair leaves a tree with distinct ids,** and draws nothing. -/
theorem ensureIds_eq_self {tree : Node} (h : tree.HasDistinctIds) (next : Nat) :
    (tree.ensureIds next).1 = tree ∧ (tree.ensureIds next).2.pool.next = next := by
  have hcourse := redraw_mapIds (f := IdRepair.repair) tree { pool := { taken := tree.ids, next } }
  obtain ⟨hplaces, hpool⟩ := hcourse.eq_of_distinct h.named h.nodup (List.disjoint_nil_right _)
  exact ⟨mapIds_eq_self tree _ hplaces, congrArg IdPool.next hpool⟩

end Node

end SchemaCanvas
