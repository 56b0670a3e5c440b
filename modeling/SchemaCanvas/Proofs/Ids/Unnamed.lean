import SchemaCanvas.Edit.Operation
import Mathlib.Logic.Basic

/-!
# Trees without their ids

Two trees are alike if they differ in nothing but ids, the ids of the elements inside components
included. A copy of a node with new ids is alike to the node.

* `Node.withoutIds` : a tree with every id taken away;
* `Node.withoutIds_mapIds` : what a traversal that changes ids keeps;
* `Edit.withoutIds_freshCopy` : a copy is alike to what it is a copy of.
-/

namespace SchemaCanvas

namespace Node

/-- No id in place of any. -/
def noId (_ : IdRole) (_ _ : String) : StateM Unit String := pure ""

/-- A tree with every id taken away. -/
def withoutIds (n : Node) : Node := (n.mapIds noId ()).1

section

variable {σ : Type} {f : IdRole → String → String → StateM σ String}

theorem mapIdsBelow_withId (e : Element) (id : String) (s : σ) :
    mapIdsBelow f { e with id } s =
      ({ (mapIdsBelow f e s).1 with id }, (mapIdsBelow f e s).2) := by
  obtain ⟨_, _, _, children, _, _, otherwise, _, _, _, _⟩ := e
  cases otherwise <;> cases children <;> rfl

variable (f)

mutual

/-- **Changing the ids of a tree changes nothing else.** -/
theorem withoutIds_mapIds : ∀ (n : Node) (s : σ), (n.mapIds f s).1.withoutIds = n.withoutIds
  | ⟨none, element⟩, s => by
    have hbelow := noIdsBelow_mapIdsBelow element (f .node element.type element.id s).2
    change Node.mk none { (mapIdsBelow noId { (mapIdsBelow f element _).1 with id := _ } ()).1
      with id := "" } = Node.mk none { (mapIdsBelow noId element ()).1 with id := "" }
    rw [mapIdsBelow_withId, ← hbelow]
  | ⟨some component, element⟩, s => by
    let inner := f .render element.type element.id (f .node element.type component.id s).2
    have hbelow := noIdsBelow_mapIdsBelow element inner.2
    change Node.mk (some { component with id := "" })
      { (mapIdsBelow noId { (mapIdsBelow f element inner.2).1 with id := inner.1 } ()).1
        with id := "" } = Node.mk _ { (mapIdsBelow noId element ()).1 with id := "" }
    rw [mapIdsBelow_withId, ← hbelow]

theorem noIdsBelow_mapIdsBelow : ∀ (e : Element) (s : σ),
    (mapIdsBelow noId (mapIdsBelow f e s).1 ()).1 = (mapIdsBelow noId e ()).1
  | ⟨_, _, _, none, _, _, none, _, _, _, _⟩, _ => rfl
  | ⟨_, _, _, some items, _, _, none, _, _, _, _⟩, s =>
    congrArg (fun items => Element.mk _ _ _ (some items) _ _ none _ _ _ _)
      (noIdsOfItems_mapIdsOfItems items s)
  | ⟨_, _, _, none, _, _, some branch, _, _, _, _⟩, s =>
    congrArg (fun branch => Element.mk _ _ _ none _ _ (some branch) _ _ _ _)
      (noIdsOfBranch_mapIdsOfBranch branch s)
  | ⟨_, _, _, some items, _, _, some branch, _, _, _, _⟩, s =>
    congrArg₂ (fun branch items => Element.mk _ _ _ (some items) _ _ (some branch) _ _ _ _)
      (noIdsOfBranch_mapIdsOfBranch branch s) (noIdsOfItems_mapIdsOfItems items _)

theorem noIdsOfBranch_mapIdsOfBranch : ∀ (b : ElseBranch) (s : σ),
    (mapIdsOfBranch noId (mapIdsOfBranch f b s).1 ()).1 = (mapIdsOfBranch noId b ()).1
  | .node n, s => congrArg ElseBranch.node (withoutIds_mapIds n s)
  | .flag _, _ => rfl

theorem noIdsOfItems_mapIdsOfItems : ∀ (items : List ChildItem) (s : σ),
    (mapIdsOfItems noId (mapIdsOfItems f items s).1 ()).1 = (mapIdsOfItems noId items ()).1
  | [], _ => rfl
  | item :: rest, s =>
    congrArg₂ List.cons (noIdsOfItem_mapIdsOfItem item s) (noIdsOfItems_mapIdsOfItems rest _)

theorem noIdsOfItem_mapIdsOfItem : ∀ (item : ChildItem) (s : σ),
    (mapIdsOfItem noId (mapIdsOfItem f item s).1 ()).1 = (mapIdsOfItem noId item ()).1
  | .node n, s => congrArg ChildItem.node (withoutIds_mapIds n s)
  | .text _, _ => rfl
  | .ref _, _ => rfl
  | .other _, _ => rfl

end

end

end Node

/-- **A copy is alike to what it is a copy of.** -/
theorem Edit.withoutIds_freshCopy (next : Nat) (tree n : Node) :
    (freshCopy next tree n).1.withoutIds = n.withoutIds :=
  Node.withoutIds_mapIds IdPool.renew n { taken := tree.ids, next }

end SchemaCanvas
