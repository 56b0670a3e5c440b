import SchemaCanvas.Schema.IdPool
import SchemaCanvas.Schema.Node

/-!
# Ids of nodes

Every node of a tree should have an id of its own, and the element inside a component may have one
besides. `Node.idPlaces` lists all of them, in the order node, inner element, `else` branch,
children. `Node.mapIds` changes them in this order, with new ids drawn from an `IdPool`.

* `Node.renewIds` gives new ids to all nodes of a tree, for a copy of it;
* `Node.ensureIds` gives new ids only where one is missing or has occurred before.
-/

namespace SchemaCanvas

/-- Whose id it is. -/
inductive IdRole where
  | node
  /-- the element inside a component -/
  | render
deriving DecidableEq

namespace Node

mutual

/-- All ids of a tree, empty ones included. -/
def idPlaces : Node → List (IdRole × String)
  | ⟨none, element⟩ => (.node, element.id) :: idPlacesBelow element
  | ⟨some component, element⟩ =>
    (.node, component.id) :: (.render, element.id) :: idPlacesBelow element

/-- All ids below an element. -/
def idPlacesBelow : Element → List (IdRole × String)
  | { otherwise, children, .. } =>
    (match otherwise with
      | some branch => idPlacesOfBranch branch
      | none => []) ++
    (match children with
      | some items => idPlacesOfItems items
      | none => [])

/-- All ids of an `else` branch. -/
def idPlacesOfBranch : ElseBranch → List (IdRole × String)
  | .node n => idPlaces n
  | .flag _ => []

/-- All ids of a list of children. -/
def idPlacesOfItems : List ChildItem → List (IdRole × String)
  | [] => []
  | item :: rest => idPlacesOfItem item ++ idPlacesOfItems rest

/-- All ids of an entry. -/
def idPlacesOfItem : ChildItem → List (IdRole × String)
  | .node n => idPlaces n
  | _ => []

end

/-- The ids of a tree that are in use. -/
def ids (n : Node) : List String := (n.idPlaces.map Prod.snd).filter fun id => !id.isEmpty

variable {σ : Type} (f : IdRole → String → String → StateM σ String)

mutual

/-- Change the ids of a tree in the order in which they are listed. The change sees whose id it is,
the type of the node and the id. -/
def mapIds : Node → StateM σ Node
  | ⟨none, element⟩ => do
    let id ← f .node element.type element.id
    let element ← mapIdsBelow element
    return ⟨none, { element with id }⟩
  | ⟨some component, element⟩ => do
    let id ← f .node element.type component.id
    let inner ← f .render element.type element.id
    let element ← mapIdsBelow element
    return ⟨some { component with id }, { element with id := inner }⟩

/-- Change the ids below an element. -/
def mapIdsBelow : Element → StateM σ Element
  | ⟨id, type, props, children, condition, elseIf, otherwise, loop, key, link, platform⟩ => do
    let otherwise ← match otherwise with
      | some branch => some <$> mapIdsOfBranch branch
      | none => pure none
    let children ← match children with
      | some items => some <$> mapIdsOfItems items
      | none => pure none
    return ⟨id, type, props, children, condition, elseIf, otherwise, loop, key, link, platform⟩

/-- Change the ids of an `else` branch. -/
def mapIdsOfBranch : ElseBranch → StateM σ ElseBranch
  | .node n => .node <$> mapIds n
  | .flag b => pure (.flag b)

/-- Change the ids of a list of children. -/
def mapIdsOfItems : List ChildItem → StateM σ (List ChildItem)
  | [] => pure []
  | item :: rest => do
    let item ← mapIdsOfItem item
    let rest ← mapIdsOfItems rest
    return item :: rest

/-- Change the ids of an entry. -/
def mapIdsOfItem : ChildItem → StateM σ ChildItem
  | .node n => .node <$> mapIds n
  | item => pure item

end

end Node

/-! ### New ids -/

namespace IdPool

/-- A new id in place of an old one. The element inside a component may stay without an id. -/
def renew (role : IdRole) (type id : String) : StateM IdPool String :=
  match role with
  | .node => fresh type
  | .render => if id.isEmpty then pure id else fresh type

end IdPool

/-- Give new ids to a tree. -/
def Node.renewIds (n : Node) : StateM IdPool Node := n.mapIds IdPool.renew

/-- The course of a repair: the pool of ids, the ids met so far and the number of changes. -/
structure IdRepair where
  pool : IdPool
  seen : List String := []
  changed : Nat := 0

namespace IdRepair

/-- Keep an id. -/
def keep (id : String) : StateM IdRepair String := fun r => (id, { r with seen := id :: r.seen })

/-- A new id. -/
def replace (type : String) : StateM IdRepair String := fun r =>
  let (id, pool) := IdPool.fresh type r.pool
  (id, { pool, seen := id :: r.seen, changed := r.changed + 1 })

/-- Replace an id that has occurred before, or that is missing where it must not. -/
def repair (role : IdRole) (type id : String) : StateM IdRepair String := do
  if id.isEmpty then
    match role with
    | .node => replace type
    | .render => return id
  else if (← get).seen.contains id then replace type
  else keep id

end IdRepair

/-- Repair the ids of a tree, with draws from a number on. -/
def Node.ensureIds (next : Nat) (n : Node) : Node × IdRepair :=
  n.mapIds IdRepair.repair { pool := { taken := n.ids, next } }

end SchemaCanvas
